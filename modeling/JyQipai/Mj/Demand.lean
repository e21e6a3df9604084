import JyQipai.Mj.Score

/-!
# What the losers are asked for

`deal_change_score` multiplies and caps the amount inside its loop, and keeps it from one loser
to the next: the second loser is asked for the factor of the piao seats twice over.
-/

namespace JyQipai.Mj.Table

open JyQipai.Lib

def piaoFactor : Option Nat → Int
  | none => 1
  | some 0 => 1
  | some 1 => 2
  | some _ => 4

def capped (cap : Option Int) (score : Int) : Int := cap.elim score (min score)

def owedScore (piao : Option Nat) (cap : Option Int) (score : Int) : Int :=
  capped cap (score * piaoFactor piao)

def demands (piao : Option Nat) (cap : Option Int) : List Nat → Int → List (Nat × Int)
  | [], _ => []
  | loser :: others, score =>
      (loser, askedScore piao cap score) :: demands piao cap others (askedScore piao cap score)

def payDemands (race seat : Nat) (piao : Option Nat) (k : Int → Int → Table → M α) :
    List (Nat × Int) → Int → Int → Table → M α
  | [], sum, surplus, t => k sum surplus t
  | (loser, score) :: others, sum, surplus, t =>
      if piao.isSome ∧ (5 < (t.seat seat).piaoNum ∨ 5 < (t.seat loser).piaoNum) then
        .raised t
      else
        t.changeOnePlayerScore loser (-score) fun deduct t =>
          payDemands race seat piao k others (sum + deduct) (surplus + (score + deduct))
            (t.book race loser deduct (score + deduct))

def askCap (t : Table) (seat : Nat) (type : PayType) (k : Option Int → Table → M α) : M α :=
  if type.isHu ∧ t.cfg.yingfengding then
    t.ask (.yingfengding seat) fun cap t => k (some cap) t
  else k none t

variable {race seat : Nat} {piao : Option Nat} {cap : Option Int} {k : Int → Int → Table → M α}

theorem payLosers_eq (others : List Nat) (score sum surplus : Int) (t : Table) :
    payLosers race seat piao cap k others score sum surplus t =
      payDemands race seat piao k (demands piao cap others score) sum surplus t := by
  induction others generalizing score sum surplus t with
  | nil => rfl
  | cons loser others ih =>
      unfold payLosers demands payDemands
      dsimp only
      simp only [ih]

theorem map_fst_demands (others : List Nat) (score : Int) :
    (demands piao cap others score).map Prod.fst = others := by
  induction others generalizing score with
  | nil => rfl
  | cons loser others ih => rw [demands, List.map_cons, ih]

theorem capped_eq_ite (cap : Option Int) (score : Int) :
    (match cap with
      | none => score
      | some m => if m < score then m else score) = capped cap score := by
  cases cap with
  | none => rfl
  | some m =>
      change (if m < score then m else score) = min score m
      by_cases h : m < score
      · rw [if_pos h, min_eq_right h.le]
      · rw [if_neg h, min_eq_left (not_lt.mp h)]

theorem askedScore_eq (score : Int) : askedScore piao cap score = owedScore piao cap score := by
  rcases piao with _ | _ | _ | n
  · exact (capped_eq_ite cap score).trans (congrArg (capped cap) (mul_one score).symm)
  · exact (capped_eq_ite cap score).trans (congrArg (capped cap) (mul_one score).symm)
  · exact capped_eq_ite cap (score * 2)
  · exact capped_eq_ite cap (score * 4)

theorem piaoFactor_cases (piao : Option Nat) : piaoFactor piao = 1 ∨ 1 < piaoFactor piao := by
  rcases piao with _ | _ | _ | n
  · exact .inl rfl
  · exact .inl rfl
  · exact .inr (by decide)
  · exact .inr (by decide : (1 : Int) < 4)

theorem demands_of_owed (others : List Nat) {score : Int} (h : owedScore piao cap score = score) :
    ∀ d ∈ demands piao cap others score, d.2 = score := by
  induction others with
  | nil => exact fun d hd => absurd hd List.not_mem_nil
  | cons loser others ih =>
      intro d hd
      rw [demands, askedScore_eq, h] at hd
      rcases List.mem_cons.mp hd with rfl | hd
      · rfl
      · exact ih d hd

theorem capped_mul_iff {f score : Int} (hf : 1 < f) :
    capped cap (capped cap (score * f) * f) = capped cap (score * f) ↔
      (score = 0 ∧ ∀ m ∈ cap, 0 ≤ m) ∨ ∃ m ∈ cap, 0 ≤ m ∧ m ≤ score * f := by
  have hfix (x : Int) : x * f = x ↔ x = 0 := by
    constructor
    · intro h
      have hzero : x * (f - 1) = 0 := by
        rw [mul_sub, h, mul_one, sub_self]
      exact (mul_eq_zero.mp hzero).resolve_right (by omega)
    · intro h
      rw [h, zero_mul]
  cases cap with
  | none =>
      change score * f * f = score * f ↔ _
      rw [hfix, mul_eq_zero, or_iff_left (by omega : f ≠ 0)]
      simp
  | some m =>
      change min (min (score * f) m * f) m = min (score * f) m ↔ _
      have hgrow : 0 ≤ m → m ≤ m * f := fun hm => le_mul_of_one_le_right hm hf.le
      simp only [Option.mem_some, forall_eq', exists_eq_left']
      constructor
      · intro h
        by_cases hbind : m ≤ score * f
        · rw [min_eq_right hbind] at h
          refine .inr ⟨?_, hbind⟩
          by_contra hneg
          have : m * f < m := by nlinarith
          omega
        · rw [min_eq_left (not_le.mp hbind).le] at h
          have hzero : score * f = 0 := by
            rw [← hfix]
            omega
          have hscore := (mul_eq_zero.mp hzero).resolve_right (by omega)
          exact .inl ⟨hscore, by omega⟩
      · rintro (⟨rfl, hm⟩ | ⟨hm, hbind⟩)
        · rw [zero_mul, min_eq_left hm, zero_mul, min_eq_left hm]
        · rw [min_eq_right hbind, min_eq_right (hgrow hm)]

theorem owedScore_owedScore_iff {score : Int} :
    owedScore piao cap (owedScore piao cap score) = owedScore piao cap score ↔
      piaoFactor piao = 1 ∨ (score = 0 ∧ ∀ m ∈ cap, 0 ≤ m) ∨
        ∃ m ∈ cap, 0 ≤ m ∧ m ≤ score * piaoFactor piao := by
  unfold owedScore
  rcases piaoFactor_cases piao with hone | hmore
  · rw [hone, mul_one, mul_one]
    refine iff_of_true ?_ (.inl rfl)
    cases cap with
    | none => rfl
    | some m => exact min_eq_left (min_le_right score m)
  · rw [capped_mul_iff hmore, or_iff_right (ne_of_gt hmore)]

/-- Every loser is asked for what he owes exactly if there is at most one, the factor is one, the
amount is zero, or the limit binds from the first loser on. -/
theorem dealChangeScore_demands (F : NumFormat) (t : Table) (race seat : Nat) (total : ℚ)
    (others : List Nat) (type : PayType) (k : Int → Int → Table → M α) :
    let score := ⌊F.mul total t.cfg.initStake⌋
    let piao := if t.cfg.daPiao then some t.getDaPiaoPlayerNum else none
    (dealChangeScore F t race seat total others type k =
      t.askCap seat type fun cap t => payDemands race seat piao
        (fun sum surplus t => t.payWinner race seat sum surplus k)
        (demands piao cap others score) 0 0 t) ∧
      ∀ cap, (demands piao cap others score).map Prod.fst = others ∧
        ((∀ d ∈ demands piao cap others score, d.2 = owedScore piao cap score) ↔
          others.length ≤ 1 ∨ piaoFactor piao = 1 ∨ (score = 0 ∧ ∀ m ∈ cap, 0 ≤ m) ∨
            ∃ m ∈ cap, 0 ≤ m ∧ m ≤ score * piaoFactor piao) := by
  intro score piao
  refine ⟨?_, fun cap => ⟨map_fst_demands others score, ?_⟩⟩
  · unfold dealChangeScore askCap
    simp only [payLosers_eq]
    rfl
  · match others with
    | [] => simp [demands]
    | [loser] => simp [demands, askedScore_eq]
    | loser :: second :: others =>
        have hlen : ¬ (loser :: second :: others).length ≤ 1 := by
          rw [List.length_cons, List.length_cons]
          omega
        rw [← owedScore_owedScore_iff, or_iff_right hlen]
        constructor
        · intro h
          have hsecond := h (second, askedScore piao cap (askedScore piao cap score))
            (List.mem_cons_of_mem _ List.mem_cons_self)
          rwa [askedScore_eq, askedScore_eq] at hsecond
        · intro h d hd
          rw [demands, askedScore_eq] at hd
          rcases List.mem_cons.mp hd with rfl | hd
          · rfl
          · exact demands_of_owed _ h d hd

def paidQueries : M α → List Query
  | .done _ _ => []
  | .raised _ => []
  | .call t (.modifyScore s score) k =>
      .modifyScore s score :: paidQueries (k { value := score, rand := t.rand } t)
  | .call t q k => q :: paidQueries (k { rand := t.rand } t)

def piaoTable : Table where
  cfg :=
    { algo := { hupaiInfo := fun _ _ _ => none, maxTingTotal := fun _ _ _ => none }
      daPiao := true }
  pSeatNumber := some
  onLinePlayer := some
  seat := fun s => { piaoNum := if s = 1 then 1 else 0 }

/-- Each loser is asked for twice as much as the one before, where all owe two. -/
theorem piao_doubles :
    owedScore (some piaoTable.getDaPiaoPlayerNum) none 1 = 2 ∧
      paidQueries (dealChangeScore .exact piaoTable 1 1 1 [2, 3, 4] (.hu .zimo)
          fun _ _ t => .done t ()) =
        [.modifyScore 2 (-2), .modifyScore 3 (-4), .modifyScore 4 (-8), .modifyScore 1 14] := by
  decide +kernel

end JyQipai.Mj.Table
