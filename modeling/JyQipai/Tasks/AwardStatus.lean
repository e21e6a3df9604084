import JyQipai.Tasks.Awards

/-!
# The status of the awards

`decode_task_award_status` makes a table of Booleans of a number, and
`encode_task_award_status` a number of such a table.  What is lost between them is what a double
cannot hold; a status stays below its limit while no level above 53 is marked.
-/

namespace JyQipai.Tasks

open Lib

/-! ## Tables and numbers -/

def halve (chu : ℕ) : ℕ := ⌊(double (chu : ℚ)).getD 0 / 2⌋₊

def decodeFrom : ℕ → ℕ → Option (List Bool)
  | 0, _ => none
  | turns + 1, chu =>
      if halve chu = 0 then some [decide (chu % 2 = 1)]
      else (decodeFrom turns (halve chu)).map (decide (chu % 2 = 1) :: ·)

def decodeVec (status_num : ℕ) : Option (List Bool) :=
  decodeFrom (Nat.log 2 status_num + 2) status_num

/-- `encode_task_award_status`, for such a table; the keys are counted from 0 here. -/
def encodeVec (status_vec : List Bool) : Option ℚ :=
  status_vec.zipIdx.foldl
    (fun num status => if status.1 then addDouble num (powDouble status.2) else num) (some 0)

def places (v : List Bool) : List ℕ := (List.range v.length).filter fun i => v.getD i false

def SameBits (v w : List Bool) : Prop := ∀ i, v.getD i false = w.getD i false

def NumberBack (n : ℕ) : Prop := (decodeVec n).bind encodeVec = some (n : ℚ)

def TableBack (v : List Bool) : Prop :=
  ∃ n : ℕ, encodeVec v = some (n : ℚ) ∧ ∃ w, decodeVec n = some w ∧ SameBits w v

variable {n i : ℕ} {v w : List Bool} {b : Bool}

theorem places_concat (v : List Bool) (b : Bool) :
    places (v ++ [b]) = places v ++ if b then [v.length] else [] := by
  have hfront : (List.range v.length).filter (fun i => (v ++ [b]).getD i false) = places v := by
    refine List.filter_congr fun i hi => ?_
    rw [List.getD_append _ _ _ _ (List.mem_range.mp hi)]
  rw [places, List.length_append, List.length_singleton, List.range_succ, List.filter_append,
    hfront]
  congr 1
  cases b <;> simp

theorem encodeVec_concat (v : List Bool) (b : Bool) : encodeVec (v ++ [b]) =
    if b then addDouble (encodeVec v) (powDouble v.length) else encodeVec v := by
  rw [encodeVec, List.zipIdx_append, List.foldl_append]
  simp [encodeVec]

theorem encodeVec_eq (v : List Bool) :
    encodeVec v = encodeTaskAwardStatus ((places v).map levelOf) := by
  induction v using List.reverseRecOn with
  | nil => rfl
  | append_singleton v b ih =>
      rw [encodeVec_concat, places_concat, ih]
      cases b with
      | false => simp
      | true =>
          have hlevel : levelOf v.length - 1 = v.length := by simp [levelOf]
          simp [encodeTaskAwardStatus, hlevel]

theorem isDouble_encodeVec {x : ℚ} (h : encodeVec v = some x) : ∃ n : ℕ, x = n ∧ IsDouble n := by
  induction v using List.reverseRecOn generalizing x with
  | nil =>
      obtain rfl : 0 = x := Option.some.inj h
      exact ⟨0, Nat.cast_zero.symm, IsDouble.zero⟩
  | append_singleton v b ih =>
      rw [encodeVec_concat] at h
      cases b with
      | false => exact ih h
      | true =>
          obtain ⟨y, hy, h⟩ := Option.bind_eq_some_iff.mp h
          obtain ⟨z, hz, h⟩ := Option.bind_eq_some_iff.mp h
          obtain ⟨k, rfl, -⟩ := ih hy
          have hpow : (2 : ℚ) ^ (v.length : ℤ) = ((2 ^ v.length : ℕ) : ℚ) := by
            push_cast
            exact zpow_natCast ..
          rw [powDouble, hpow] at hz
          obtain ⟨l, rfl, -⟩ := isDouble_of_double hz
          rw [← Nat.cast_add] at h
          exact isDouble_of_double h

theorem mem_places : i ∈ places v ↔ v.getD i false = true := by
  rw [places, List.mem_filter, List.mem_range, and_iff_right_iff_imp]
  intro h
  by_contra hge
  rw [List.getD_eq_default _ _ (Nat.not_lt.mp hge)] at h
  cases h

theorem places_sorted (v : List Bool) : (places v).SortedLT :=
  (List.pairwise_lt_range.filter _).sortedLT

theorem places_eq_bitIndices : places v = n.bitIndices ↔ ∀ i, v.getD i false = n.testBit i := by
  constructor
  · intro h i
    rw [Bool.eq_iff_iff, ← mem_places, h, Nat.mem_bitIndices]
  · intro h
    refine (places_sorted v).eq_of_mem_iff Nat.bitIndices_sorted fun i => ?_
    rw [mem_places, h, Nat.mem_bitIndices]

/-! ## The loop of the decoder -/

theorem halve_eq (h : IsDouble n) : halve n = n / 2 := by
  rw [halve, h, Option.getD_some]
  exact_mod_cast Rat.natFloor_natCast_div_natCast n 2

theorem getD_digit (n : ℕ) (rest : List Bool) (hrest : ∀ i, rest.getD i false = (n / 2).testBit i)
    (i : ℕ) : (decide (n % 2 = 1) :: rest).getD i false = n.testBit i := by
  cases i with
  | zero => exact (Nat.testBit_zero n).symm
  | succ i => exact (hrest i).trans (Nat.testBit_add_one n i).symm

theorem decodeFrom_double {turns : ℕ} (h : IsDouble n) (hn : n < 2 ^ (turns + 1)) :
    ∃ w, decodeFrom (turns + 1) n = some w ∧ ∀ i, w.getD i false = n.testBit i := by
  induction turns generalizing n with
  | zero =>
      have hhalf : n / 2 = 0 := by omega
      rw [decodeFrom, halve_eq h, if_pos hhalf]
      refine ⟨_, rfl, getD_digit n [] fun i => ?_⟩
      rw [hhalf, Nat.zero_testBit]
      rfl
  | succ turns ih =>
      rw [decodeFrom, halve_eq h]
      by_cases hhalf : n / 2 = 0
      · rw [if_pos hhalf]
        refine ⟨_, rfl, getD_digit n [] fun i => ?_⟩
        rw [hhalf, Nat.zero_testBit]
        rfl
      · obtain ⟨w, hw, hbits⟩ := ih h.half (by omega)
        rw [if_neg hhalf, hw]
        exact ⟨_, rfl, getD_digit n w hbits⟩

theorem decodeVec_double (h : IsDouble n) :
    ∃ w, decodeVec n = some w ∧ ∀ i, w.getD i false = n.testBit i := by
  refine decodeFrom_double h ?_
  exact (Nat.lt_pow_succ_log_self Nat.one_lt_two n).trans
    (Nat.pow_lt_pow_right Nat.one_lt_two (Nat.lt_succ_self _))

/-! ## Back and forth -/

theorem numberBack_iff (n : ℕ) : NumberBack n ↔ IsDouble n := by
  constructor
  · intro h
    obtain ⟨w, -, hw⟩ := Option.bind_eq_some_iff.mp h
    obtain ⟨k, hk, hdouble⟩ := isDouble_encodeVec hw
    rwa [Nat.cast_inj.mp hk]
  · intro h
    obtain ⟨w, hw, hbits⟩ := decodeVec_double h
    rw [NumberBack, hw, Option.bind_some, encodeVec_eq, places_eq_bitIndices.mpr hbits,
      encode_levels Nat.bitIndices_nodup h.narrow, bitSum, Nat.sum_map_two_pow_bitIndices]

theorem tableBack_iff (v : List Bool) : TableBack v ↔ Narrow (places v) := by
  constructor
  · rintro ⟨n, hn, w, hw, hsame⟩
    obtain ⟨k, hk, hdouble⟩ := isDouble_encodeVec hn
    obtain rfl := Nat.cast_inj.mp hk
    obtain ⟨w', hw', hbits⟩ := decodeVec_double hdouble
    obtain rfl := Option.some.inj (hw.symm.trans hw')
    rw [places_eq_bitIndices.mpr fun i => (hsame i).symm.trans (hbits i)]
    exact hdouble.narrow
  · intro h
    have hencode : encodeVec v = some ((bitSum (places v) : ℕ) : ℚ) := by
      rw [encodeVec_eq, encode_levels (places_sorted v).nodup h]
    obtain ⟨k, hk, hdouble⟩ := isDouble_encodeVec hencode
    rw [← Nat.cast_inj.mp hk] at hdouble
    obtain ⟨w, hw, hbits⟩ := decodeVec_double hdouble
    have hplaces := places_eq_bitIndices.mp
      (Nat.bitIndices_sum_map_two_pow (places_sorted v)).symm
    exact ⟨_, hencode, w, hw, fun i => (hbits i).trans (hplaces i).symm⟩

/-! ## Levels that are marked -/

namespace Task

variable {s t : Task}

def Below (s : Task) : Prop := ∃ n : ℕ, s.taskAwardGetStatus = some (n : ℚ) ∧ n < 2 ^ 53

def InRange (s : Task) (level : Option Int) : Prop :=
  s.lv < level.getD s.taskRound ∨ level.getD s.taskRound ∈ s.taken ∨
    1 ≤ level.getD s.taskRound ∧ level.getD s.taskRound ≤ 53

def Low (s : Task) : Event → Prop
  | .addProcess exp env => s.config.ownType = .goldpigNew2 →
      s.process = s.maxProcess ∨ s.outOfTime env.now ∨ (s.addExp exp).InRange none
  | .getTaskAward _ => s.InRange none
  | .getTaskAwardNew level _ => s.InRange (some level)
  | .getShouldGetAwards change _ => change = false ∨ ∀ level ∈ s.due, level ≤ 53

theorem Below.congr (h : s.Below) (hstatus : t.taskAwardGetStatus = s.taskAwardGetStatus) :
    t.Below := by
  obtain ⟨n, hn, hlt⟩ := h
  exact ⟨n, hstatus.trans hn, hlt⟩

theorem below_of_marks (hn : n < 2 ^ 53) {levels : List Int} (hnodup : levels.Nodup)
    (hlevels : ∀ level ∈ levels, 1 ≤ level ∧ level ≤ 53 ∧ level ∉ decodeTaskAwardStatus n) :
    ∃ k : ℕ, encodeTaskAwardStatus (levels.foldl (fun l level => setLevel level l)
      (decodeTaskAwardStatus n)) = some (k : ℚ) ∧ k < 2 ^ 53 := by
  obtain ⟨es, rfl⟩ : ∃ es : List ℕ, levels = es.map levelOf := by
    refine ⟨levels.map fun level => (level - 1).toNat, ?_⟩
    rw [List.map_map]
    refine ((List.map_congr_left fun level hlevel => ?_).trans (List.map_id levels)).symm
    have hone := (hlevels level hlevel).1
    simp only [Function.comp_apply, levelOf, id_eq]
    omega
  have hes (i : ℕ) (hi : i ∈ es) : i < 53 ∧ i ∉ n.bitIndices := by
    obtain ⟨-, hle, hnew⟩ := hlevels (levelOf i) (List.mem_map_of_mem hi)
    rw [decode_nat] at hnew
    refine ⟨by unfold levelOf at hle; omega, fun hmem => hnew (List.mem_map_of_mem hmem)⟩
  have hbits (i : ℕ) (hi : i ∈ n.bitIndices) : i < 53 :=
    (Nat.pow_lt_pow_iff_right Nat.one_lt_two).mp ((Nat.two_pow_le_of_mem_bitIndices hi).trans_lt hn)
  have hall : (es ++ n.bitIndices).Nodup :=
    List.nodup_append'.mpr ⟨hnodup.of_map, Nat.bitIndices_nodup, fun i hi => (hes i hi).2⟩
  obtain ⟨l, hsorted, hperm, hset⟩ := setLevels es n.bitIndices Nat.bitIndices_sorted hall
  have hl (i : ℕ) (hi : i ∈ l) : i < 53 := by
    rcases List.mem_append.mp (hperm.mem_iff.mp hi) with hi | hi
    · exact (hes i hi).1
    · exact hbits i hi
  have hnarrow : Narrow l := fun i hi => ⟨by have := hl i hi; omega, fun j _ => by
    have := hl i hi
    omega⟩
  rw [decode_nat, hset, encode_levels hsorted.nodup hnarrow]
  exact ⟨_, rfl, sum_two_pow_lt hsorted.nodup hl⟩

theorem below_getAward (h : s.Below) {level : Option Int} (env : Env) (hlow : s.InRange level) :
    (s.getAward level env).2.Below := by
  unfold getAward
  generalize hlevel : level.getD s.taskRound = l at hlow
  unfold InRange at hlow
  rw [hlevel] at hlow
  dsimp only
  split
  · exact h
  rename_i hle
  obtain ⟨n, hstatus, hlt⟩ := h
  have hbelow : s.Below := ⟨n, hstatus, hlt⟩
  have htaken : s.taken = decodeTaskAwardStatus n := by
    rw [taken, hstatus]
    rfl
  rw [hstatus]
  dsimp only
  split
  · exact hbelow
  rename_i hnew
  rw [htaken] at hlow
  obtain ⟨hone, h53⟩ := (hlow.resolve_left hle).resolve_left hnew
  cases haward : s.getLvAwardData l env with
  | none => exact hbelow
  | some r =>
      obtain ⟨data, t⟩ := r
      have hquiet := quiet_getLvAwardData haward
      cases data with
      | none => exact hbelow.congr hquiet.status
      | some items =>
          dsimp only
          have hcount : s.Quiet
              (if t.config.ownType = .stepTask then t.countHongbao items else (true, t)).2 := by
            split
            · exact hquiet.trans (quiet_countHongbao t items)
            · exact hquiet
          generalize (if t.config.ownType = .stepTask then t.countHongbao items
            else (true, t)) = r at hcount ⊢
          obtain ⟨free, u⟩ := r
          cases free with
          | false => exact hbelow.congr hcount.status
          | true =>
              have hlevels (x : Int) (hx : x ∈ [l]) :
                  1 ≤ x ∧ x ≤ 53 ∧ x ∉ decodeTaskAwardStatus n := by
                obtain rfl := List.mem_singleton.mp hx
                exact ⟨hone, h53, hnew⟩
              obtain ⟨k, hk, hklt⟩ := below_of_marks hlt (List.nodup_singleton l) hlevels
              dsimp only
              rw [if_pos rfl]
              split
              · exact ⟨k, hk, hklt⟩
              · exact ⟨k, hk, hklt⟩

theorem below_getTaskAward (h : s.Below) {level : Option Int} (env : Env)
    (hlow : s.InRange level) : (getTaskAward level env s).2.Below := by
  have haward := below_getAward h env hlow
  unfold getTaskAward
  split
  · exact h
  · split <;> simp_all

theorem below_requestGetTaskAward (h : s.Below) (env : Env) (hlow : s.InRange none) :
    (requestGetTaskAward env s).2.Below := by
  have haward := below_getTaskAward (h.congr (t := { s with awardLock := true }) rfl) env hlow
  unfold requestGetTaskAward
  split
  · exact h
  · revert haward
    generalize getTaskAward none env { s with awardLock := true } = r
    intro haward
    obtain ⟨_ | r, t⟩ := r
    · exact haward
    · exact haward.congr rfl

theorem below_requestGetTaskAwardNew (h : s.Below) (level : Int) (env : Env)
    (hlow : s.InRange (some level)) : (requestGetTaskAwardNew level env s).2.Below := by
  have haward := below_getTaskAward (h.congr (t := { s with awardNewLock := true }) rfl) env hlow
  unfold requestGetTaskAwardNew
  split
  · exact h
  · revert haward
    generalize getTaskAward (some level) env { s with awardNewLock := true } = r
    intro haward
    obtain ⟨_ | r, t⟩ := r
    · exact haward
    · exact haward.congr rfl

theorem below_addProcess (h : s.Below) {exp : Int} (env : Env)
    (hlow : s.config.ownType = .goldpigNew2 →
      s.process = s.maxProcess ∨ s.outOfTime env.now ∨ (s.addExp exp).InRange none) :
    (s.addProcess exp env).2.Below := by
  unfold addProcess
  split
  · exact h
  rename_i hopen
  have hadded : (s.addExp exp).Below := h.congr rfl
  dsimp only
  split
  · rename_i htype
    have hlow := (hlow htype).resolve_left fun hmax => hopen (.inl hmax)
    exact below_getTaskAward hadded env (hlow.resolve_left fun hout => hopen (.inr hout))
  · exact hadded

theorem below_getShouldGetAwards (h : s.Below) (change : Bool) (env : Env)
    (hlow : change = false ∨ ∀ level ∈ s.due, level ≤ 53) :
    (getShouldGetAwards change env s).2.Below := by
  obtain ⟨n, hstatus, hlt⟩ := h
  have hbelow : s.Below := ⟨n, hstatus, hlt⟩
  have htaken : s.taken = decodeTaskAwardStatus n := by
    rw [taken, hstatus]
    rfl
  unfold getShouldGetAwards
  rw [hstatus]
  dsimp only
  rw [← htaken]
  have hkeys : ((List.range s.lv.toNat).map fun i : Nat => (i : Int) + 1).Pairwise (· < ·) :=
    List.pairwise_map.mpr (List.pairwise_lt_range.imp fun h => by omega)
  have hlv (key : Int)
      (hkey : key ∈ (List.range s.lv.toNat).map fun i : Nat => (i : Int) + 1) :
      1 ≤ key ∧ key ≤ s.lv := by
    obtain ⟨i, hi, rfl⟩ := List.mem_map.mp hkey
    have hlt := List.mem_range.mp hi
    omega
  have hspec := shouldLoop_spec (s := s) change env _ s.taken [] s rfl hkeys
    (fun key hkey => (hlv key hkey).2) fun _ _ => Iff.rfl
  revert hspec
  generalize shouldLoop change env _ s.taken [] s = r
  rintro ⟨hquiet, hresult⟩
  obtain ⟨_ | ⟨levels, awards⟩, t⟩ := r
  · exact hbelow.congr hquiet.status
  · obtain ⟨-, hlevels⟩ := hresult levels awards rfl
    dsimp only
    rw [foldl_pay]
    cases change with
    | false => exact hbelow.congr hquiet.status
    | true =>
        have hdue (level : Int) (hlevel : level ∈ s.due) :
            1 ≤ level ∧ level ≤ 53 ∧ level ∉ decodeTaskAwardStatus n := by
          obtain ⟨hkey, hdue⟩ := List.mem_filter.mp hlevel
          rw [← htaken]
          have hdue : s.IsDue s.taken level := of_decide_eq_true hdue
          exact ⟨(hlv level hkey).1, (hlow.resolve_left Bool.noConfusion) level hlevel, hdue.1⟩
        obtain ⟨k, hk, hklt⟩ := below_of_marks hlt (hkeys.nodup.filter _) hdue
        refine ⟨k, ?_, hklt⟩
        rw [← htaken] at hk
        exact (congrArg encodeTaskAwardStatus hlevels).trans hk

theorem below_step (h : s.Below) {e : Event} (hlow : s.Low e) : (step s e).Below := by
  cases e with
  | addProcess exp env => exact below_addProcess h env hlow
  | getTaskAward env => exact below_requestGetTaskAward h env hlow
  | getTaskAwardNew level env => exact below_requestGetTaskAwardNew h level env hlow
  | getShouldGetAwards change env => exact below_getShouldGetAwards h change env hlow

theorem below_start (config : Config) (n : Int) : (start config n).Below :=
  ⟨0, rfl, by norm_num⟩

end Task

/-- What is coded is decoded again just where a double holds it, and the status of a task stays
below its limit while none of its levels above 53 is marked. -/
theorem award_status (n : ℕ) (v : List Bool) (config : Config) (total : Int) {s : Task}
    (hs : Reach step Task.Low (Task.start config total) s) :
    (NumberBack n ↔ IsDouble n) ∧ (TableBack v ↔ Narrow (places v)) ∧ s.Below :=
  ⟨numberBack_iff n, tableBack_iff v,
    hs.invariant (Task.below_start config total) fun _ _ hbelow hlow => Task.below_step hbelow hlow⟩

instance (s : Task) (level : Option Int) : Decidable (s.InRange level) :=
  inferInstanceAs (Decidable (_ ∨ _ ∨ _))

instance decidableLow (s : Task) : DecidablePred s.Low
  | .addProcess exp env => inferInstanceAs (Decidable (s.config.ownType = .goldpigNew2 →
      s.process = s.maxProcess ∨ s.outOfTime env.now ∨ (s.addExp exp).InRange none))
  | .getTaskAward _ => inferInstanceAs (Decidable (s.InRange none))
  | .getTaskAwardNew level _ => inferInstanceAs (Decidable (s.InRange (some level)))
  | .getShouldGetAwards change _ =>
      inferInstanceAs (Decidable (change = false ∨ ∀ level ∈ s.due, level ≤ 53))

theorem award_status_claims :
    (NumberBack 5 ↔ IsDouble 5) ∧ (TableBack [true, false, true] ↔ Narrow [0, 2]) ∧
      (run step (Task.start repeated 0) claims).Below :=
  award_status 5 [true, false, true] repeated 0 (reach_run (by decide +kernel))

/-- The level 54 of a task that repeats its last step is completed, and claimed. -/
theorem status_not_below :
    ¬((∀ n, NumberBack n) ∧ (∀ v, TableBack v) ∧ ∀ (config : Config) (total : Int) (s : Task),
      Reach step Task.Careful (Task.start config total) s → s.Below) := by
  rintro ⟨-, -, h⟩
  obtain ⟨n, hn, hlt⟩ := h repeated 0
    (run step (Task.start repeated 0) [.addProcess 2000 {}, .getTaskAwardNew 54 {}])
    (reach_run (by decide +kernel))
  have hstatus : (run step (Task.start repeated 0)
      [.addProcess 2000 {}, .getTaskAwardNew 54 {}]).taskAwardGetStatus =
        some (9007199254740992 : ℚ) := by decide +kernel
  rw [hstatus] at hn
  have hcast : (9007199254740992 : ℕ) = n := by exact_mod_cast Option.some.inj hn
  omega

end JyQipai.Tasks
