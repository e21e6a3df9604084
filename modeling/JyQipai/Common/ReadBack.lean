import JyQipai.Common.SafeSerialize

/-!
# Stored tables read back

What `safe_serialize` writes is read back as the same table, with every string read as a string.
A string comes back with blanks after some brackets when it has no carriage return and no line
break at its start; the reader changes any other string.
-/

namespace JyQipai.Basefunc

open Lib.Lua

/-! ## Blanks after brackets -/

inductive Padded : Text → Text → Prop
  | nil : Padded [] []
  | cons (c : Char) {s r : Text} : Padded s r → Padded (c :: s) (c :: r)
  | bracket (n : Nat) {s r : Text} :
      Padded s r → Padded (']' :: s) (']' :: (List.replicate n ' ' ++ r))

namespace Padded

theorem of_blanks {n : Nat} {s r : Text} (h : Padded (List.replicate n ' ' ++ s) r) :
    ∃ q, r = List.replicate n ' ' ++ q ∧ Padded s q := by
  induction n generalizing r with
  | zero => exact ⟨r, rfl, h⟩
  | succ n ih =>
      rw [List.replicate_succ, List.cons_append] at h
      cases h with
      | cons _ h =>
          obtain ⟨q, rfl, hq⟩ := ih h
          exact ⟨q, rfl, hq⟩

theorem trans {s r q : Text} (hsr : Padded s r) (hrq : Padded r q) : Padded s q := by
  induction hsr generalizing q with
  | nil => exact hrq
  | cons c _ ih =>
      cases hrq with
      | cons _ h => exact cons c (ih h)
      | bracket n h => exact bracket n (ih h)
  | bracket m _ ih =>
      cases hrq with
      | cons _ h =>
          obtain ⟨q, rfl, hq⟩ := of_blanks h
          exact bracket m (ih hq)
      | bracket n h =>
          obtain ⟨q, rfl, hq⟩ := of_blanks h
          have hboth := bracket (n + m) (ih hq)
          rwa [List.replicate_add, List.append_assoc] at hboth

theorem count {s r : Text} (h : Padded s r) {c : Char} (hc : c ≠ ' ') :
    r.count c = s.count c := by
  induction h with
  | nil => rfl
  | cons d _ ih => rw [List.count_cons, List.count_cons, ih]
  | bracket n _ ih =>
      have hblank : (List.replicate n ' ').count c = 0 := by
        rw [List.count_replicate, if_neg]
        simpa using hc.symm
      rw [List.count_cons, List.count_cons, List.count_append, hblank, ih, Nat.zero_add]

theorem head {s r : Text} (h : Padded s r) : r.head? = s.head? := by
  cases h <;> rfl

theorem nil_right {s : Text} (h : Padded s []) : s = [] := by
  cases h
  rfl

theorem snoc_blank {s r : Text} (h : Padded s r) (hr : r.getLast? = some ']') :
    Padded s (r ++ [' ']) := by
  induction h with
  | nil => exact absurd hr (by decide)
  | @cons c s r h ih =>
      cases r with
      | nil =>
          rw [List.getLast?_singleton, Option.some.injEq] at hr
          subst hr
          rw [nil_right h]
          exact bracket 1 nil
      | cons d r =>
          rw [List.getLast?_cons_cons] at hr
          exact cons c (ih hr)
  | @bracket n s r h ih =>
      cases r with
      | nil =>
          rw [nil_right h, List.append_nil, List.cons_append, ← List.replicate_succ']
          have hone := bracket (n + 1) nil
          rwa [List.append_nil] at hone
      | cons d r =>
          have hlast : (d :: r).getLast? = some ']' := by
            rw [← hr, ← List.cons_append, List.getLast?_append_cons]
          have hsnoc := bracket n (ih hlast)
          rwa [← List.append_assoc] at hsnoc

end Padded

theorem padded_gsub (s : Text) : Padded s (gsub s).1 := by
  fun_induction gsub s with
  | case1 s ih => exact .bracket 1 (.cons _ ih)
  | case2 c s hs ih => exact .cons c ih
  | case3 => exact .nil

theorem pairs_of_gsub {s : Text} (h : (gsub s).2 = 0) : pairs (gsub s).1 = 0 := by
  fun_induction gsub s with
  | case1 s ih => exact absurd h (Nat.succ_ne_zero _)
  | case2 c s hs ih =>
      have hpair : ¬(c = ']' ∧ (gsub s).1.head? = some ']') := by
        rintro ⟨hc, hhead⟩
        rw [gsub_head] at hhead
        obtain ⟨s', rfl⟩ := List.head?_eq_some_iff.mp hhead
        exact hs s' hc rfl
      rw [pairs_cons, if_neg hpair, ih h]
  | case3 => rfl

theorem padded_splitPairs (s : Text) : Padded s (splitPairs s) := by
  fun_induction splitPairs s with
  | case1 s _ => exact padded_gsub s
  | case2 s _ ih => exact (padded_gsub s).trans ih

theorem pairs_splitPairs (s : Text) : pairs (splitPairs s) = 0 := by
  fun_induction splitPairs s with
  | case1 s h => exact pairs_of_gsub h
  | case2 s _ ih => exact ih

theorem content_eq (s : Text) :
    content s = if (splitPairs s).getLast? = some ']' then splitPairs s ++ [' ']
      else splitPairs s := rfl

theorem padded_content (s : Text) : Padded s (content s) := by
  rw [content_eq]
  split
  case isTrue h => exact (padded_splitPairs s).snoc_blank h
  case isFalse => exact padded_splitPairs s

theorem closed_of_pairs : ∀ {s : Text}, pairs s = 0 → s.getLast? ≠ some ']' → Closed s
  | [], _, _ => trivial
  | [c], _, hlast => fun hc => hlast (by rw [hc]; rfl)
  | c :: d :: s, h, hlast => by
      rw [pairs] at h
      rw [List.getLast?_cons_cons] at hlast
      refine ⟨fun hcd => ?_, closed_of_pairs (by omega) hlast⟩
      rw [if_pos hcd] at h
      omega

theorem pairs_snoc_blank (s : Text) : pairs (s ++ [' ']) = pairs s := by
  induction s with
  | nil => rfl
  | cons c s ih =>
      rw [List.cons_append, pairs_cons, pairs_cons, ih]
      cases s with
      | nil => simp
      | cons d s => rfl

theorem closed_content (s : Text) : Closed (content s) := by
  have hpairs := pairs_splitPairs s
  rw [content_eq]
  split
  case isTrue h =>
      refine closed_of_pairs (by rw [pairs_snoc_blank, hpairs]) ?_
      rw [List.getLast?_concat]
      decide
  case isFalse h => exact closed_of_pairs hpairs h

/-! ## What a string is read as -/

def reread (s : Text) : Text := breaks (skipBreak (content s))

def Plain (s : Text) : Prop := '\r' ∉ s ∧ s.head? ≠ some '\n'

instance (s : Text) : Decidable (Plain s) := inferInstanceAs (Decidable (_ ∧ _))

theorem breaks_of_no_return {s : Text} (h : '\r' ∉ s) : breaks s = s := by
  fun_induction breaks s with
  | case1 => rfl
  | case2 s ih => exact absurd (by simp) h
  | case3 s ih => exact absurd (by simp) h
  | case4 s _ ih => exact absurd (by simp) h
  | case5 c s _ _ _ ih => rw [ih fun hs => h (List.mem_cons_of_mem _ hs)]

theorem no_return_breaks (s : Text) : '\r' ∉ breaks s := by
  fun_induction breaks s with
  | case1 => exact List.not_mem_nil
  | case2 s ih => simpa using ih
  | case3 s ih => simpa using ih
  | case4 s _ ih => simpa using ih
  | case5 c s _ _ hc ih =>
      rw [List.mem_cons, not_or]
      exact ⟨Ne.symm hc, ih⟩

theorem skipBreak_newline {s : Text} (h : '\r' ∉ s) : skipBreak ('\n' :: s) = s := by
  rw [skipBreak]
  rintro s' rfl
  exact h List.mem_cons_self

theorem skipBreak_plain {s : Text} (h : Plain s) : skipBreak s = s := by
  cases s with
  | nil => rfl
  | cons c s =>
      refine skipBreak_of_head ?_
      rw [isNewline, Bool.or_eq_false_iff, beq_eq_false_iff_ne, beq_eq_false_iff_ne]
      refine ⟨fun hc => h.2 (by rw [hc]; rfl), fun hc => h.1 ?_⟩
      rw [hc]
      exact List.mem_cons_self

theorem content_no_return {s : Text} (h : '\r' ∉ s) : '\r' ∉ content s := by
  rw [← List.count_eq_zero, (padded_content s).count (by decide), List.count_eq_zero]
  exact h

theorem padded_reread_iff (s : Text) : Padded s (reread s) ↔ Plain s := by
  have hcontent := padded_content s
  constructor
  · intro h
    have hreturn : '\r' ∉ s := by
      rw [← List.count_eq_zero, ← h.count (by decide), List.count_eq_zero]
      exact no_return_breaks _
    refine ⟨hreturn, fun hhead => ?_⟩
    rw [← hcontent.head] at hhead
    obtain ⟨r, hr⟩ := List.head?_eq_some_iff.mp hhead
    have hr' : '\r' ∉ r := fun hmem =>
      content_no_return hreturn (by rw [hr]; exact List.mem_cons_of_mem _ hmem)
    -- The line break at the start is the one the reader leaves out.
    have hread : reread s = r := by
      rw [reread, hr, skipBreak_newline hr', breaks_of_no_return hr']
    have hcount := (h.count (c := '\n') (by decide)).trans (hcontent.count (by decide)).symm
    rw [hread, hr, List.count_cons_self] at hcount
    omega
  · intro h
    have hplain : Plain (content s) := ⟨content_no_return h.1, by rw [hcontent.head]; exact h.2⟩
    rwa [reread, skipBreak_plain hplain, breaks_of_no_return hplain.1]

/-! ## The tokens of what is written -/

def Ends (s : Text) : Prop := ∀ c ∈ s.head?, c = ',' ∨ c = '\n'

theorem Ends.head {s : Text} (h : Ends s) {p : Char → Bool} (hcomma : p ',' = false)
    (hbreak : p '\n' = false) : ∀ c ∈ s.head?, p c = false := by
  intro c hc
  rcases h c hc with rfl | rfl
  · exact hcomma
  · exact hbreak

theorem isDigit_digits {n : Nat} : ∀ d ∈ Nat.toDigits 10 n, d.isDigit = true :=
  fun _ hd => Nat.isDigit_of_mem_toDigits (by decide) (by decide) hd

theorem digits_head (n : Nat) (rest : Text) :
    ∃ d, (Nat.toDigits 10 n ++ rest).head? = some d ∧ d.isDigit = true := by
  obtain ⟨d, w, hw⟩ := List.exists_cons_of_ne_nil (Nat.toDigits_ne_nil (b := 10) (n := n))
  refine ⟨d, by rw [hw]; rfl, isDigit_digits (n := n) d ?_⟩
  rw [hw]
  exact List.mem_cons_self

theorem head_ne {s : Text} {c d : Char} (h : s.head? = some d) (hne : d ≠ c) :
    s.head? ≠ some c := fun hc => hne (Option.some.inj (h.symm.trans hc))

theorem digit_ne {c d : Char} (hd : d.isDigit = true) (hc : c.isDigit = false) : d ≠ c := by
  rintro rfl
  rw [hc] at hd
  exact Bool.noConfusion hd

theorem lexes_integer {i : Int} {rest : Text} {ts : List Token}
    (hrest : ∀ d ∈ rest.head?, (isHexDigit d || d == '.') = false) (h : Lexes rest ts) :
    Lexes (integerText i ++ rest) (integerTokens i ++ ts) := by
  have hdigits := Lexes.numeral (w := Nat.toDigits 10 i.natAbs) Nat.toDigits_ne_nil isDigit_digits
    hrest h
  rw [Nat.ofDigitChars_ten_toDigits] at hdigits
  unfold integerText integerTokens
  split
  · obtain ⟨d, hd, hdigit⟩ := digits_head i.natAbs rest
    exact Lexes.minus (head_ne hd (digit_ne hdigit (by decide))) hdigits
  · exact hdigits

theorem integerText_head {c : Char} (hminus : c ≠ '-') (hc : c.isDigit = false) (i : Int)
    (rest : Text) : (integerText i ++ rest).head? ≠ some c := by
  unfold integerText
  split
  · exact fun h => hminus (Option.some.inj h).symm
  · obtain ⟨d, hd, hdigit⟩ := digits_head i.natAbs rest
    exact head_ne hd (digit_ne hdigit hc)

theorem lexes_key {k : Key} (hk : k.Writable) {rest : Text} {ts : List Token}
    (h : Lexes ('=' :: rest) ts) : Lexes (keyText k ++ '=' :: rest) (k.tokens ++ ts) := by
  cases k with
  | name s =>
      cases s with
      | nil => exact hk.elim
      | cons c s =>
          obtain ⟨hc, hs, hreserved⟩ := hk
          have hword := Lexes.word hc hs (fun d hd => by cases hd; rfl) h
          rwa [word, if_neg hreserved] at hword
  | index i =>
      have hclose : Lexes (']' :: '=' :: rest) (.symbol ']' :: ts) := Lexes.symbol (by simp) h
      have hint := lexes_integer (i := i) (fun d hd => by cases hd; rfl) hclose
      have hopen := Lexes.bracket (integerText_head (by decide) (by decide) i _)
        (integerText_head (by decide) (by decide) i _) hint
      simpa only [keyText, Key.tokens, List.cons_append, List.append_assoc, List.nil_append]
        using hopen

theorem lexes_reserved {c : Char} {w rest : Text} {ts : List Token} (hr : c :: w ∈ reservedWords)
    (hc : isAlpha c = true) (hw : w.all isAlnum = true)
    (hrest : ∀ d ∈ rest.head?, isAlnum d = false) (h : Lexes rest ts) :
    Lexes (c :: w ++ rest) (.reserved (c :: w) :: ts) := by
  have hword := Lexes.word hc (List.all_eq_true.mp hw) hrest h
  rwa [word, if_pos hr] at hword

section Serialize

variable (floatText : Bool → Option ℚ → Text)

theorem serValue_head {v : Value} (hv : v.Writable) (lv : Nat) (rest : Text) :
    (serValue floatText lv v ++ rest).head? ≠ some '=' := by
  cases v with
  | boolean b => cases b <;> exact fun h => absurd (Option.some.inj h) (by decide)
  | integer i => exact integerText_head (by decide) (by decide) i rest
  | float => exact hv.elim
  | text s => exact fun h => absurd (Option.some.inj h) (by decide)
  | table es => exact fun h => absurd (Option.some.inj h) (by decide)

theorem isSpace_tabs {n : Nat} : ∀ c ∈ t n, isSpace c = true := by
  intro c hc
  rw [List.eq_of_mem_replicate hc]
  rfl

theorem lexes_tableText {lv : Nat} {tmp : List Text} {rest : Text} {ts us : List Token}
    (hlines : Lexes (List.intercalate [',', '\n'] tmp ++ '\n' :: (t lv ++ '}' :: rest))
      (us ++ .symbol '}' :: ts)) :
    Lexes (tableText lv tmp ++ rest) (.symbol '{' :: us ++ .symbol '}' :: ts) := by
  have hopen := Lexes.spaces (isSpace_tabs (n := lv))
    (Lexes.symbol (c := '{') (by simp) (Lexes.space (c := '\n') rfl hlines))
  have htable := Lexes.space (c := '\n') rfl hopen
  simpa only [tableText, List.cons_append, List.append_assoc, List.nil_append] using htable

theorem lexes_close (lv : Nat) {rest : Text} {ts : List Token} (h : Lexes rest ts) :
    Lexes ('\n' :: (t lv ++ '}' :: rest)) (.symbol '}' :: ts) :=
  Lexes.space rfl (Lexes.spaces isSpace_tabs (Lexes.symbol (by simp) h))

theorem lexes_line {lv : Nat} {k : Key} {v : Value} (hk : k.Writable) (hv : v.Writable)
    {rest : Text} {ts us : List Token}
    (hvalue : Lexes (serValue floatText lv v ++ rest) (us ++ ts)) :
    Lexes (t (lv + 1) ++ (keyText k ++ '=' :: serValue floatText lv v) ++ rest)
      (k.tokens ++ .symbol '=' :: us ++ ts) := by
  have hequals := Lexes.equals (serValue_head floatText hv lv rest) hvalue
  have hline := Lexes.spaces (isSpace_tabs (n := lv + 1)) (lexes_key hk hequals)
  simpa only [List.cons_append, List.append_assoc] using hline

mutual

theorem lexes_value : ∀ (v : Value) (lv : Nat) (rest : Text) (ts : List Token), v.Writable →
    Ends rest → Lexes rest ts →
    Lexes (serValue floatText lv v ++ rest) ((v.mapText reread).tokens ++ ts)
  | .boolean true, _, rest, ts, _, hrest, h =>
      lexes_reserved (c := 't') (w := ['r', 'u', 'e']) (by decide) rfl rfl (hrest.head rfl rfl) h
  | .boolean false, _, rest, ts, _, hrest, h =>
      lexes_reserved (c := 'f') (w := ['a', 'l', 's', 'e']) (by decide) rfl rfl
        (hrest.head rfl rfl) h
  | .integer i, _, rest, ts, _, hrest, h => lexes_integer (hrest.head rfl rfl) h
  | .float _ _, _, _, _, hv, _, _ => hv.elim
  | .text s, _, rest, ts, _, _, h => by
      have htext := Lexes.text (closed_content s) h
      simpa only [serValue, v2s, Value.mapText, Value.tokens, reread, List.cons_append,
        List.append_assoc, List.nil_append] using htext
  | .table es, lv, rest, ts, hv, _, h => by
      have hlines := lexes_entries es (lv + 1) _ _ hv (fun c hc => by cases hc; exact .inr rfl)
        (lexes_close (lv + 1) h)
      have htable := lexes_tableText hlines
      simpa only [serValue, Value.mapText, Value.tokens, List.cons_append, List.append_assoc,
        List.nil_append] using htable

theorem lexes_entries : ∀ (es : Entries) (lv : Nat) (rest : Text) (ts : List Token), es.Writable →
    Ends rest → Lexes rest ts →
    Lexes (List.intercalate [',', '\n'] (serEntries floatText lv es) ++ rest)
      ((es.mapText reread).tokens ++ ts)
  | .nil, _, rest, ts, _, _, h => h
  | .cons k v .nil, lv, rest, ts, hes, hrest, h => by
      have hline := lexes_line floatText hes.1 hes.2.1 (lexes_value v lv rest ts hes.2.1 hrest h)
      simpa only [serEntries, List.intercalate_singleton, Entries.mapText, Entries.tokens]
        using hline
  | .cons k v (.cons k' v' es), lv, rest, ts, hes, hrest, h => by
      have hlines := lexes_entries (.cons k' v' es) lv rest ts hes.2.2.2 hrest h
      have hcomma := Lexes.symbol (c := ',') (by simp) (Lexes.space (c := '\n') rfl hlines)
      have hline := lexes_line floatText hes.1 hes.2.1 (lexes_value v lv _ _ hes.2.1
        (fun c hc => by cases hc; exact .inl rfl) hcomma)
      simpa only [serEntries, List.intercalate_cons_cons, Entries.mapText, Entries.tokens,
        List.cons_append, List.append_assoc, List.nil_append] using hline

end

/-! ## Tables read back -/

def readBack (v : Value) : Value := (v.mapText reread).read

theorem get_readBack {es : Entries} (h : es.Writable) (k : Key) :
    ((es.mapText reread).readInto .nil).get k = (es.get k).map readBack := by
  rw [Entries.get_read (es.writable_mapText reread h), Entries.get_mapText, Option.map_map]
  rfl

theorem load_safeSerialize {es : Entries} (h : es.Writable) (levels : Nat) :
    load levels ("return ".toList ++ safeSerialize floatText (.table es)) =
      if (Value.table es).levels ≤ levels then some (readBack (.table es)) else none := by
  have hlines := lexes_entries floatText es 0 _ _ h (fun c hc => by cases hc; exact .inr rfl)
    (lexes_close 0 Lexes.nil)
  have htable := lexes_tableText hlines
  rw [List.append_nil] at htable
  have hreturn := lexes_reserved (c := 'r') (w := ['e', 't', 'u', 'r', 'n']) (by decide) rfl rfl
    (fun d hd => by cases hd; rfl) (Lexes.space (c := ' ') rfl htable)
  have hload := load_of_lexes (v := (Value.table es).mapText reread)
    (Value.writable_mapText reread _ h)
    (s := "return ".toList ++ safeSerialize floatText (.table es)) ?_ levels
  · rw [hload, Value.levels_mapText]
    rfl
  · rw [Value.mapText, Value.tokens]
    exact hreturn

theorem parseLuaTableStr_safeSerialize {es : Entries} (h : es.Writable) (levels : Nat) :
    parseLuaTableStr levels (safeSerialize floatText (.table es)) =
      if (Value.table es).levels ≤ levels then (readBack (.table es), true)
      else (.table .nil, false) := by
  rw [parseLuaTableStr, load_safeSerialize floatText h]
  by_cases hlevels : (Value.table es).levels ≤ levels
  · simp only [hlevels, ↓reduceIte]
    rfl
  · simp only [hlevels, ↓reduceIte]

end Serialize

mutual

theorem like_readBack_iff (R : Text → Text → Prop) : ∀ v : Value, v.Writable →
    (Like R v (readBack v) ↔ v.Texts fun s => R s (reread s))
  | .boolean b, _ => iff_of_true (.boolean b) trivial
  | .integer i, h => iff_of_true (.number (integerRead_number h)) trivial
  | .float _ _, h => h.elim
  | .text s, _ => ⟨fun h => by cases h with | text h => exact h, Like.text⟩
  | .table es, h => by
      rw [Value.Texts, ← like_readBack_entries_iff R es h]
      constructor
      · intro hlike k v hk
        cases hlike with
        | table _ hlike => exact hlike k v _ hk (by rw [get_readBack h, hk]; rfl)
      · refine fun hlike => .table (fun k => ?_) fun k v w hk hw => ?_
        · rw [get_readBack h, Option.isSome_map]
        · rw [get_readBack h, hk] at hw
          cases hw
          exact hlike k v hk

theorem like_readBack_entries_iff (R : Text → Text → Prop) : ∀ es : Entries, es.Writable →
    ((∀ k v, es.get k = some v → Like R v (readBack v)) ↔ es.Texts fun s => R s (reread s))
  | .nil, _ => iff_of_true (fun _ _ h => by cases h) trivial
  | .cons j w rest, h => by
      rw [Entries.Texts, ← like_readBack_iff R w h.2.1, ← like_readBack_entries_iff R rest h.2.2.2]
      constructor
      · intro hall
        refine ⟨hall j w (by rw [Entries.get, if_pos rfl]), fun k v hk => hall k v ?_⟩
        have hne : k ≠ j := by
          rintro rfl
          rw [h.2.2.1] at hk
          cases hk
        rw [Entries.get, if_neg hne, hk]
      · rintro ⟨hw, hall⟩ k v hk
        rw [Entries.get] at hk
        split at hk
        · cases hk
          exact hw
        · exact hall k v hk

end

/-- A table read back from what was written for it, with its strings related by `R`. -/
def ReadsBack (parse : Nat → Text → Value × Bool) (floatText : Bool → Option ℚ → Text)
    (levels : Nat) (R : Text → Text → Prop) (es : Entries) : Prop :=
  ∃ v, parse levels (safeSerialize floatText (.table es)) = (v, true) ∧ Like R (.table es) v

theorem readsBack_iff (floatText : Bool → Option ℚ → Text) {es : Entries} (h : es.Writable)
    (levels : Nat) (R : Text → Text → Prop) :
    ReadsBack parseLuaTableStr floatText levels R es ↔
      (Value.table es).levels ≤ levels ∧ es.Texts fun s => R s (reread s) := by
  have hlike := like_readBack_iff R (.table es) h
  rw [Value.Texts] at hlike
  unfold ReadsBack
  rw [parseLuaTableStr_safeSerialize floatText h, ← hlike]
  split
  case isTrue hlevels =>
      constructor
      · rintro ⟨v, hv, hl⟩
        cases hv
        exact ⟨hlevels, hl⟩
      · exact fun hl => ⟨_, rfl, hl.2⟩
  case isFalse hlevels =>
      constructor
      · rintro ⟨v, hv, _⟩
        cases hv
      · exact fun hl => absurd hl.1 hlevels

theorem texts_iff {P Q : Text → Prop} (h : ∀ s, P s ↔ Q s) (es : Entries) :
    es.Texts P ↔ es.Texts Q := by
  rw [funext fun s => propext (h s)]

/-- A table of integers, booleans and strings under integers and identifiers comes back with
blanks after brackets of its strings if and only if it is not nested too deep for the reader and
none of its strings has a carriage return or starts with a line break.  Each is read as one
string. -/
theorem stored_tables_read_back (floatText : Bool → Option ℚ → Text) (levels : Nat) (es : Entries)
    (h : es.Writable) :
    (ReadsBack parseLuaTableStr floatText levels Padded es ↔
        (Value.table es).levels ≤ levels ∧ es.Texts Plain) ∧
      (ReadsBack parseEmailData floatText levels Padded es ↔
        (Value.table es).levels ≤ levels ∧ es.Texts Plain) ∧
      ((Value.table es).levels ≤ levels →
        ReadsBack parseLuaTableStr floatText levels (fun s r => r = reread s) es ∧
          ReadsBack parseEmailData floatText levels (fun s r => r = reread s) es) := by
  have hpadded : ReadsBack parseLuaTableStr floatText levels Padded es ↔
      (Value.table es).levels ≤ levels ∧ es.Texts Plain := by
    rw [readsBack_iff floatText h, texts_iff padded_reread_iff]
  refine ⟨hpadded, hpadded, fun hlevels => ?_⟩
  have hread : ReadsBack parseLuaTableStr floatText levels (fun s r => r = reread s) es :=
    (readsBack_iff floatText h levels _).mpr ⟨hlevels, es.texts_trivial fun _ => rfl⟩
  exact ⟨hread, hread⟩

/-- `{goods={[-3]=true},text="a]]b"}`. -/
def goodsData : Entries :=
  .cons (.name "goods".toList) (.table (.cons (.index (-3)) (.boolean true) .nil))
    (.cons (.name "text".toList) (.text "a]]b".toList) .nil)

theorem goodsData_writable : goodsData.Writable := by
  refine ⟨⟨rfl, ?_, by decide⟩, ⟨(by decide : inRange (-3)), trivial, rfl, trivial⟩, rfl,
    ⟨rfl, ?_, by decide⟩, trivial, rfl, trivial⟩
  · exact List.all_eq_true.mp rfl
  · exact List.all_eq_true.mp rfl

theorem stored_tables_read_back_goods :
    ReadsBack parseLuaTableStr (fun _ _ => []) 180 Padded goodsData :=
  (stored_tables_read_back (fun _ _ => []) 180 goodsData goodsData_writable).1.mpr
    ⟨by decide, ⟨trivial, trivial⟩, (by decide : Plain "a]]b".toList), trivial⟩

/-- `{content="\nhello"}`: a mail whose text starts with an empty line. -/
def letterData : Entries := .cons (.name "content".toList) (.text "\nhello".toList) .nil

theorem letterData_writable : letterData.Writable := by
  refine ⟨⟨rfl, ?_, by decide⟩, trivial, rfl, trivial⟩
  exact List.all_eq_true.mp rfl

/-- The reader leaves out the line break at the start of the string. -/
theorem stored_letter_changed : letterData.Writable ∧ (Value.table letterData).levels ≤ 180 ∧
    ¬ReadsBack parseLuaTableStr (fun _ _ => []) 180 Padded letterData ∧
    ¬ReadsBack parseEmailData (fun _ _ => []) 180 Padded letterData := by
  have hchanged : ¬ReadsBack parseLuaTableStr (fun _ _ => []) 180 Padded letterData := by
    rw [readsBack_iff _ letterData_writable]
    rintro ⟨-, htext, -⟩
    exact absurd ((padded_reread_iff _).mp htext) (by decide)
  exact ⟨letterData_writable, by decide, hchanged, hchanged⟩

end JyQipai.Basefunc
