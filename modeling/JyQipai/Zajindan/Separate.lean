import JyQipai.Lib.Unwind
import JyQipai.Zajindan.CarryOver

/-!
# Tables side by side

All tables of a room share the award kept back.  A table without which the others go on as they
do with it is one whose commands do not come to the places where that award is written: a group
left over is worth an award or leaves nothing to keep, no award that can be split is, and the
first skill is not created while an award is kept back.
-/

namespace JyQipai.Zajindan.Room

open Lib

section Calm

variable (cfg : Config)

def whole (total : Int) : Bool :=
  (cfg.ids.any fun id => cfg.awardOf id = total) ||
    cfg.ids.all fun id => id ≤ 2 || 2 * cfg.awardOf id ≠ total

def wholeGroups (kickback : Option Nat) (eggs : List Egg) : Bool :=
  kickback ≠ none || (eggs.take realRateEggsNum).all fun egg =>
    egg.awardType = .normal || egg.isGetAward || whole cfg (groupTotal cfg eggs egg)

def keyUnsplit (kickback : Option Nat) (key : Nat) : Tape → Nat → Bool :=
  match bigHammerCache2 cfg (cfg.awardOf key) with
  | some (_ :: _) =>
      if key ≠ cfg.lastId ∧ (kickback = none ∨ kickback = some cfg.lastId) then
        Draw.after Draw.unit fun rand _ _ => kickbackAwardRate ≤ rand * 100
      else fun _ _ => true
  | _ => fun _ _ => true

def eggUnsplit (random : ℚ) (b : Build) : List (Nat × ℚ) → Tape → Nat → Bool
  | [] => fun _ _ => true
  | (key, rate) :: keys =>
      if key = 1 ∧ b.biggestNum = 1 then eggUnsplit random b keys
      else if key = cfg.lastId ∧ 3 ≤ b.emptyNum then fun _ _ => true
      else if random < rate ∨ key = cfg.lastId then keyUnsplit cfg b.kickback key
      else eggUnsplit random b keys

def eggsUnsplit (keys : List (Nat × ℚ)) : Nat → Build → Tape → Nat → Bool
  | 0, _ => fun _ _ => true
  | n + 1, b =>
      Draw.after Draw.unit fun random t k =>
        eggUnsplit cfg (random * 100) b keys t k &&
          Draw.after (realEgg cfg (random * 100) b keys) (eggsUnsplit keys n) t k

def handsOut (b : Build) (c : Candidate) : Bool :=
  b.kickback ≠ none && c.skillId = 1 && (openAllCache cfg c.awardValue).any (· ≠ [])

def skillCalm (b : Build) : Tape → Nat → Bool :=
  Draw.after (Draw.ofOption (cfg.skillOf 1)) fun first =>
    let vec := canSkillVec cfg first b.eggs
    if vec = [] then fun _ _ => true
    else
      Draw.after (Draw.choose vec) fun group => Draw.after (Draw.choose group) fun c =>
        Draw.after Draw.unit fun random =>
          Draw.after (Draw.ofOption (cfg.skillOf c.skillKey)) fun skill _ _ =>
            skill.showRate ≤ random * 100 || !handsOut cfg b c

def countingCalm (hammer : HammerRow) (isChangeEgg : Bool) (carry : Carry) (money : ℚ) :
    Tape → Nat → Bool :=
  let powers := if isChangeEgg then hammer.awardPowerReplaceEgg.getD hammer.awardPower
    else hammer.awardPower
  if powers.length < cfg.award.length then fun _ _ => true
  else
    let keys := keyRates cfg (powers.take cfg.award.length)
    let n := realRateEggsNum - carry.old.length
    let b : Build :=
      { eggs := carry.old
        emptyNum := carry.emptyNum
        biggestNum := carry.maxNum
        kickback := carry.kickback }
    fun t k => eggsUnsplit cfg keys n b t k &&
      Draw.after (realEggs cfg keys n b) (fun b =>
        Draw.after (tryUpgrade cfg hammer money b.eggs) fun r =>
          skillCalm cfg { b with eggs := r.1 }) t k

def initCalm (hammer : HammerRow) (isChangeEgg : Bool) (old : List Egg) (money : ℚ)
    (kickback : Option Nat) : Tape → Nat → Bool := fun t k =>
  wholeGroups cfg kickback old &&
    Draw.after (Draw.ofOption (getOldRealEgg cfg old realRateEggsNum kickback))
      (fun carry => countingCalm cfg hammer isChangeEgg carry money) t k

def newGameCalm (hammerId : Nat) (old : Option GameData) (remain : List Nat)
    (isReplaceEgg : Bool) (kickback : Option Nat) : Tape → Nat → Bool :=
  Draw.after (Draw.ofOption (cfg.hammerOf hammerId)) fun hammer =>
    initCalm cfg hammer isReplaceEgg
      (((old.map GameData.awardData).getD []) ++ remain.map fun id => { id := id })
      ((old.map GameData.replaceEggSpend).getD 0) kickback

def newGamesCalm (remain : Nat → List Nat) (kickback : Option Nat) :
    List Nat → Tape → Nat → Bool
  | [] => fun _ _ => true
  | hammerId :: ids => fun t k =>
      newGameCalm cfg hammerId none (remain hammerId) false kickback t k &&
        Draw.after (newGame cfg hammerId none (remain hammerId) false kickback)
          (fun _ => newGamesCalm remain kickback ids) t k

def replacedCalm (kickback : Option Nat) (hammerId : Nat) (isSpendMoney : Bool)
    (old : Option GameData) : Tape → Nat → Bool :=
  newGameCalm cfg hammerId (if isSpendMoney then old.map Desk.spend else old) [] isSpendMoney
    kickback

def Desk.calm (order : List Nat) (desk : Desk) (kickback : Option Nat) (tape : Tape) : Op → Bool
  | .playerData remain =>
      !desk.starting || newGamesCalm cfg remain kickback [1, 2, 3, 4] tape 0
  | .replaceEggs hammerId isSpendMoney =>
      desk.table.all fun d => desk.actionLock .replaceEggs || hammerId ≠ d.gamingHammerId ||
        replacedCalm cfg kickback hammerId isSpendMoney (d.hammerGameData hammerId) tape 0
  | .returnTable =>
      desk.table.all fun d => order.all fun hammerId =>
        (d.hammerGameData hammerId).all fun g => wholeGroups cfg kickback g.awardData
  | _ => true

end Calm

section Kickback

variable {cfg : Config} {kickback : Option Nat} {s t : Carry} {eggs : List Egg} {egg : Egg}
  {carry : Carry}

theorem keepBack_whole {total : Int} {id : Nat}
    (h : kickback = none → ∀ id ∈ cfg.ids, 2 < id → 2 * cfg.awardOf id ≠ total) :
    keepBack cfg kickback total id = kickback := by
  unfold keepBack
  split
  next hnone =>
    rw [hnone.1]
    refine List.find?_eq_none.mpr fun kept hkept hhalf => ?_
    obtain ⟨hhalf, hgt⟩ := of_decide_eq_true hhalf
    exact h hnone.1 kept hkept hgt (by omega)
  next => rfl

theorem Carry.group_whole
    (h : s.kickback = none → whole cfg (groupTotal cfg s.eggs egg) = true)
    (ht : s.group cfg egg = some t) :
    t.eggs = openGroup egg.awardType s.eggs ∧ t.kickback = s.kickback := by
  unfold Carry.group at ht
  dsimp only at ht
  split at ht
  · obtain rfl := Option.some.inj ht
    obtain ⟨heggs, -, hkick⟩ := @Carry.count_fields cfg (Carry.add _ _) _
    exact ⟨heggs, hkick⟩
  next hexact =>
    split at ht
    next id _ =>
      obtain rfl := Option.some.inj ht
      obtain ⟨heggs, -, hkick⟩ := @Carry.count_fields cfg
        { Carry.add _ _ with kickback := keepBack cfg _ _ id } id
      refine ⟨heggs, hkick.trans (keepBack_whole fun hnone id hid hgt hhalf => ?_)⟩
      rcases Bool.or_eq_true_iff.mp (h hnone) with hany | hall
      · obtain ⟨id', hid', haward⟩ := List.any_eq_true.mp hany
        exact List.find?_eq_none.mp hexact id' hid' haward
      · have hid := List.all_eq_true.mp hall id hid
        simp only [Bool.or_eq_true, decide_eq_true_eq] at hid
        exact hid.elim (by omega) fun hne => hne hhalf
    · obtain ⟨last, -, rfl⟩ := Option.map_eq_some_iff.mp ht
      obtain ⟨heggs, -, hkick⟩ := @Carry.count_fields cfg _ last.id
      exact ⟨heggs, hkick⟩

theorem wholeGroups_iff : wholeGroups cfg kickback eggs = true ↔
    (kickback = none → ∀ egg ∈ eggs.take realRateEggsNum, egg.awardType ≠ .normal →
      egg.isGetAward = false → whole cfg (groupTotal cfg eggs egg) = true) := by
  simp only [wholeGroups, Bool.or_eq_true, List.all_eq_true, decide_eq_true_eq]
  grind

theorem groupTotal_congr {eggs' : List Egg} (h : eggs'.filter (isPart egg.awardType) =
    eggs.filter (isPart egg.awardType)) : groupTotal cfg eggs' egg = groupTotal cfg eggs egg := by
  rw [groupTotal, groupTotal, h]

theorem wholeGroups_of_subset {eggs' : List Egg} (h : wholeGroups cfg kickback eggs = true)
    (hsame : ∀ egg ∈ eggs'.take realRateEggsNum, egg.awardType ≠ .normal →
      egg.isGetAward = false → egg ∈ eggs.take realRateEggsNum ∧
        eggs'.filter (isPart egg.awardType) = eggs.filter (isPart egg.awardType)) :
    wholeGroups cfg kickback eggs' = true := by
  refine wholeGroups_iff.mpr fun hnone egg hegg htype hgot => ?_
  obtain ⟨hold, hfilter⟩ := hsame egg hegg htype hgot
  rw [groupTotal_congr hfilter]
  exact wholeGroups_iff.mp h hnone egg hold htype hgot

theorem Carry.round_whole {i : Nat} (hi : i < realRateEggsNum)
    (h : wholeGroups cfg s.kickback s.eggs = true) (ht : s.round cfg i = some t) :
    t.kickback = s.kickback ∧ wholeGroups cfg s.kickback t.eggs = true := by
  cases hget : s.eggs[i]? with
  | none =>
      rw [Carry.round, hget] at ht
      obtain rfl := Option.some.inj ht
      exact ⟨rfl, h⟩
  | some egg =>
      by_cases hgot : egg.isGetAward = true
      · simp only [Carry.round, hget, hgot, if_true, Option.some.injEq] at ht
        exact ht ▸ ⟨rfl, h⟩
      rw [Bool.not_eq_true] at hgot
      by_cases hnormal : egg.awardType = .normal
      · obtain ⟨u, hu, heggs, -, hkick⟩ := @Carry.round_normal cfg _ _ _ hget hgot hnormal
        obtain rfl := Option.some.inj (hu.symm.trans ht)
        refine ⟨hkick, wholeGroups_of_subset h fun e he htype hopen => ?_⟩
        rw [heggs, List.take_set] at he
        rcases List.mem_or_eq_of_mem_set he with he | rfl
        · refine ⟨he, heggs ▸ filter_set hget ?_ (by simp [isPart])⟩
          simp [isPart, hnormal, htype.symm]
        · cases hopen
      · rw [Carry.round, hget] at ht
        dsimp only at ht
        rw [if_neg (by simp [hgot]), if_neg hnormal] at ht
        have hmem : egg ∈ s.eggs.take realRateEggsNum :=
          List.mem_of_getElem? (by rw [List.getElem?_take_of_lt hi, hget])
        obtain ⟨heggs, hkick⟩ := Carry.group_whole
          (fun hnone => wholeGroups_iff.mp h hnone egg hmem hnormal hgot) ht
        refine ⟨hkick, wholeGroups_of_subset h fun e he htype hopen => ?_⟩
        rw [heggs, openGroup, ← List.map_take] at he
        obtain ⟨a, ha, rfl⟩ := List.mem_map.mp he
        by_cases hpart : isPart egg.awardType a = true
        · rw [if_pos hpart] at hopen
          cases hopen
        · rw [if_neg hpart] at hopen ⊢
          refine ⟨ha, heggs ▸ filter_openGroup (fun hsame => hpart ?_) _⟩
          simp [isPart, hsame, hopen]

theorem getOldRealEgg_whole (h : wholeGroups cfg kickback eggs = true)
    (hcarry : getOldRealEgg cfg eggs realRateEggsNum kickback = some carry) :
    carry.kickback = kickback ∧ wholeGroups cfg kickback carry.eggs = true := by
  refine foldlM_invariant
    (P := fun s => s.kickback = kickback ∧ wholeGroups cfg kickback s.eggs = true) _
    (fun s i hi t hs ht => ?_) _ _ ⟨rfl, h⟩ hcarry
  obtain ⟨rfl, hwhole⟩ := hs
  exact Carry.round_whole (List.mem_range.mp hi) hwhole ht

theorem savedEggs_whole {order : List Nat} {d : Table}
    {r : List (Nat × List Nat) × Table × Option Nat}
    (h : ∀ hammerId ∈ order, ∀ g, d.hammerGameData hammerId = some g →
      wholeGroups cfg kickback g.awardData = true)
    (hr : savedEggs cfg order d kickback = some r) : r.2.2 = kickback := by
  induction order generalizing d r with
  | nil =>
      obtain rfl := Option.some.inj hr
      rfl
  | cons hammerId order ih =>
      obtain ⟨g, hg, hr⟩ := Option.bind_eq_some_iff.mp hr
      obtain ⟨carry, hcarry, hr⟩ := Option.bind_eq_some_iff.mp hr
      obtain ⟨saved, hsaved, rfl⟩ := Option.map_eq_some_iff.mp hr
      obtain ⟨hkick, hwhole⟩ :=
        getOldRealEgg_whole (h hammerId List.mem_cons_self g hg) hcarry
      rw [hkick] at hsaved
      change saved.2.2 = kickback
      refine ih (fun i hi g' hg' => ?_) hsaved
      change Function.update d.hammerGameData hammerId _ i = some g' at hg'
      by_cases hsame : i = hammerId
      · rw [hsame, Function.update_self] at hg'
        obtain rfl := Option.some.inj hg'
        exact hwhole
      · rw [Function.update_of_ne hsame] at hg'
        exact h i (List.mem_cons_of_mem _ hi) g' hg'

theorem kickbackAward_unsplit (key : Nat) :
    Draw.Under (keyUnsplit cfg kickback key) (kickbackAward cfg kickback key) fun r =>
      r.2 = kickback := by
  unfold keyUnsplit kickbackAward
  rcases bigHammerCache2 cfg (cfg.awardOf key) with _ | _ | ⟨vec, vecs⟩
  · exact .pure rfl
  · exact .pure rfl
  dsimp only
  split
  · refine .any fun rand t k r ht hr => ?_
    rw [if_neg (not_lt.mpr (of_decide_eq_true ht))] at hr
    exact Draw.Always.pure (Q := fun r => r.2 = kickback) rfl t k r hr
  · exact .pure rfl

theorem realEgg_unsplit (random : ℚ) (b : Build) (keys : List (Nat × ℚ)) :
    Draw.Under (eggUnsplit cfg random b keys) (realEgg cfg random b keys) fun b' =>
      b'.kickback = b.kickback := by
  induction keys with
  | nil => exact .pure rfl
  | cons row keys ih =>
      rw [realEgg, eggUnsplit]
      split
      · exact ih
      split
      · split
        · exact .of_always .fail
        · exact .pure rfl
      split
      · exact (kickbackAward_unsplit _).through fun r hr => .pure hr
      · exact ih

theorem realEggs_unsplit (keys : List (Nat × ℚ)) (n : Nat) (b : Build) :
    Draw.Under (eggsUnsplit cfg keys n b) (realEggs cfg keys n b) fun b' =>
      b'.kickback = b.kickback := by
  induction n generalizing b with
  | zero => exact .pure rfl
  | succ n ih =>
      refine .any fun random => .bind (realEgg_unsplit _ b keys) fun b' hb' => ?_
      exact hb' ▸ ih b'

theorem splitEgg_kickback (b : Build) (c : Candidate) (T : AwardType) (ids : List Nat)
    (h : T = .openAll → b.kickback = none ∨ ids = []) :
    Draw.Always (splitEgg cfg b c T ids) fun b' => b'.kickback = b.kickback := by
  cases ids with
  | nil => exact .pure rfl
  | cons id ids =>
      rw [splitEgg]
      split
      · exact .fail
      · refine .pure ?_
        dsimp only
        split
        next hT =>
          have hnone := (h hT).resolve_right (List.cons_ne_nil _ _)
          simp only [openAllBehind, hnone]
        next => rfl

theorem createSkill_kickback (b : Build) (c : Candidate) (h : handsOut cfg b c = false) :
    Draw.Always (createSkill cfg b c) fun b' => b'.kickback = b.kickback := by
  unfold createSkill
  split
  next hskill =>
    simp only [handsOut, hskill, decide_true, Bool.and_true, Bool.and_eq_false_iff,
      decide_eq_false_iff_not, not_not] at h
    rcases h with hnone | hany
    · exact .any fun ids => splitEgg_kickback b c _ ids fun _ => .inl hnone
    · unfold getOpenAllResolve
      rcases hcache : openAllCache cfg c.awardValue with _ | _ | ⟨vec, vecs⟩
      · exact .bind (P := fun _ => False) .fail fun _ => False.elim
      · exact .bind (P := (· = [])) (.pure rfl) fun ids hids =>
          splitEgg_kickback b c _ ids fun _ => .inr hids
      · simp [hcache] at hany
  · exact .any fun ids => splitEgg_kickback b c _ ids nofun
  · refine .any fun two => .any fun three => ?_
    split
    · exact .pure rfl
    split
    · exact .fail
    · exact .pure rfl
  · exact .any fun ids => splitEgg_kickback b c _ ids nofun
  · exact .pure rfl

theorem chooseSkill_calm (b : Build) :
    Draw.Under (skillCalm cfg b) (chooseSkill cfg b) fun b' => b'.kickback = b.kickback := by
  refine .any fun first => ?_
  dsimp only
  split
  · exact .pure rfl
  · refine .any fun group => .any fun c => .any fun random => .any fun skill t k r ht hr => ?_
    split at hr
    next hlt =>
      have hnot : handsOut cfg b c = false := by simpa [not_le.mpr hlt] using ht
      exact createSkill_kickback b c hnot t k r hr
    next =>
      obtain rfl := Option.some.inj hr
      rfl

theorem countingEggs_calm (hammer : HammerRow) (isChangeEgg : Bool) (carry : Carry) (money : ℚ) :
    Draw.Under (countingCalm cfg hammer isChangeEgg carry money)
      (countingEggs cfg hammer isChangeEgg carry money) fun r =>
        r.1.kickback = carry.kickback := by
  unfold countingCalm countingEggs
  dsimp only
  generalize (if isChangeEgg = true then hammer.awardPowerReplaceEgg.getD hammer.awardPower
    else hammer.awardPower) = powers
  by_cases hpowers : powers.length < cfg.award.length
  · rw [if_pos hpowers, if_pos hpowers]
    exact .of_always .fail
  rw [if_neg hpowers, if_neg hpowers]
  exact .bind (realEggs_unsplit _ _ _) fun b hb => .any fun r =>
    (chooseSkill_calm _).through fun b' hb' => .pure (hb'.trans hb)

theorem initAwardData_calm (hammer : HammerRow) (isChangeEgg : Bool) (old : List Egg)
    (money : ℚ) :
    Draw.Under (initCalm cfg hammer isChangeEgg old money kickback)
      (initAwardData cfg hammer isChangeEgg old money kickback) fun init =>
        init.kickback = kickback := by
  refine .bind (P := fun carry => carry.kickback = kickback) ?_ fun carry hcarry => ?_
  · intro t k r ht hr
    obtain ⟨carry, hcarry, rfl⟩ := Option.map_eq_some_iff.mp hr
    exact (getOldRealEgg_whole ht hcarry).1
  · exact (countingEggs_calm hammer isChangeEgg carry money).through fun u hu =>
      .any fun eggs => .pure (hu.trans hcarry)

theorem newGame_calm (hammerId : Nat) (old : Option GameData) (remain : List Nat)
    (isReplaceEgg : Bool) :
    Draw.Under (newGameCalm cfg hammerId old remain isReplaceEgg kickback)
      (newGame cfg hammerId old remain isReplaceEgg kickback) fun r => r.2 = kickback :=
  .any fun hammer => (initAwardData_calm hammer isReplaceEgg _ _).through fun _ h => .pure h

theorem newGames_calm (remain : Nat → List Nat) (ids : List Nat) (d : Table) :
    Draw.Under (newGamesCalm cfg remain kickback ids) (newGames cfg remain ids d kickback)
      fun r => r.2 = kickback := by
  induction ids generalizing d with
  | nil => exact .pure rfl
  | cons hammerId ids ih =>
      refine .bind (newGame_calm hammerId none _ false) fun r hr => ?_
      obtain ⟨g, kept⟩ := r
      obtain rfl : kept = kickback := hr
      exact ih _

theorem replacedGame_calm (hammerId : Nat) (isSpendMoney : Bool) (old : Option GameData) :
    Draw.Under (replacedCalm cfg kickback hammerId isSpendMoney old)
      (Desk.replacedGame cfg kickback hammerId isSpendMoney old) fun r => r.2 = kickback := by
  have hgame (old : Option GameData) := (@newGame_calm cfg kickback hammerId old []
    isSpendMoney).through fun r (hr : r.2 = kickback) =>
      Draw.Always.any (x := Desk.openStatuses totalEggsNum) fun statuses =>
        Draw.Always.pure (Q := fun r => r.2 = kickback) (a :=
          ({ r.1 with
              eggsStatus := some (List.replicate totalEggsNum 0)
              eggsOpenStatus := some statuses }, r.2)) hr
  unfold replacedCalm Desk.replacedGame
  cases isSpendMoney with
  | false => exact hgame old
  | true =>
      cases old with
      | none => exact .of_always (.bind (P := fun _ => False) .fail fun _ => False.elim)
      | some g => exact hgame (some (Desk.spend g))

theorem Desk.step_calm {order : List Nat} {desk : Desk} {tape : Tape} {op : Op}
    (h : desk.calm cfg order kickback tape op = true) :
    (desk.step cfg order kickback tape op).2.2 = kickback := by
  cases op with
  | newTable => rfl
  | zaJinDan => rfl
  | round => rfl
  | replaceHammer =>
      unfold Desk.step
      dsimp only
      split
      · rfl
      split
      · rfl
      · split <;> rfl
  | playerData remain =>
      unfold Desk.step
      dsimp only
      split
      next hstarting _ =>
        split
        · rfl
        next hr =>
          refine newGames_calm remain _ _ tape 0 _ ?_ hr
          simpa [Desk.calm, hstarting] using h
      next => rfl
  | replaceEggs hammerId isSpendMoney =>
      unfold Desk.step Desk.replaceEggs
      dsimp only
      split
      · rfl
      next hlock =>
        split
        · rfl
        next d hd =>
          split
          · rfl
          next hid =>
            split
            · rfl
            next hr =>
              refine replacedGame_calm hammerId isSpendMoney _ tape 0 _ ?_ hr
              simpa [Desk.calm, hd, hlock, hid] using h
  | returnTable =>
      unfold Desk.step
      dsimp only
      split
      · rfl
      next d hd =>
        split
        · rfl
        next hr =>
          refine savedEggs_whole (fun hammerId hi g hg => ?_) hr
          simp only [Desk.calm, hd, Option.all_some, List.all_eq_true] at h
          simpa [hg] using h hammerId hi

end Kickback

/-! ## Two runs -/

variable (cfg : Config) (order : List Nat)

def Service.next (s : Service) (e : Event) : Service := (s.step cfg order e).2

def Event.Elsewhere (b : Nat) (e : Event) : Bool := e.tableId ≠ b

structure Separate (b : Nat) (s : Service) (es : List Event) : Prop where
  answers : (answers (Service.step cfg order) s es).filter (fun x => x.1.Elsewhere b) =
    Lib.answers (Service.step cfg order) s (es.filter (Event.Elsewhere b))
  desks : ∀ i, i ≠ b → (run (Service.next cfg order) s es).desks i =
    (run (Service.next cfg order) s (es.filter (Event.Elsewhere b))).desks i

/-- What a command for the table finds and draws neither keeps an award back nor hands one out. -/
def Calm (b : Nat) (s : Service) (e : Event) : Prop :=
  e.tableId = b → (s.desks b).calm cfg order s.kickback e.tape e.op = true

variable {cfg order} {b : Nat} {s t : Service} {e : Event}

def SameBut (b : Nat) (s t : Service) : Prop :=
  s.kickback = t.kickback ∧ ∀ i, i ≠ b → s.desks i = t.desks i

theorem step_stays (h : SameBut b s t) (he : e.tableId ≠ b) :
    (s.step cfg order e).1 = (t.step cfg order e).1 ∧
      SameBut b (s.step cfg order e).2 (t.step cfg order e).2 := by
  obtain ⟨hkickback, hdesks⟩ := h
  simp only [Service.step, SameBut, hkickback, hdesks _ he, true_and]
  intro i hi
  by_cases hself : i = e.tableId
  · subst hself
    rw [Function.update_self, Function.update_self]
  · rw [Function.update_of_ne hself, Function.update_of_ne hself]
    exact hdesks i hi

theorem step_skips (h : SameBut b s t) (hcalm : Calm cfg order b s e) (he : e.tableId = b) :
    SameBut b (s.step cfg order e).2 t := by
  have hkickback : (s.step cfg order e).2.kickback = s.kickback :=
    Desk.step_calm (he ▸ hcalm he)
  refine ⟨hkickback.trans h.1, fun i hi => ?_⟩
  change Function.update s.desks e.tableId _ i = t.desks i
  rw [Function.update_of_ne (he ▸ hi)]
  exact h.2 i hi

def unwinding (cfg : Config) (order : List Nat) (b : Nat) :
    Unwinding (Service.step cfg order) (Calm cfg order b) (Event.Elsewhere b) where
  related := SameBut b
  stays h _ hkeep := step_stays h (by simpa [Event.Elsewhere] using hkeep)
  skips h hcalm hkeep := step_skips h hcalm (by simpa [Event.Elsewhere] using hkeep)

theorem tables_separate (h : Allowed (Service.next cfg order) (Calm cfg order b) s es) :
    Separate cfg order b s es where
  answers := (unwinding cfg order b).answers_filter ⟨rfl, fun _ _ => rfl⟩ h
  desks := ((unwinding cfg order b).related_run ⟨rfl, fun _ _ => rfl⟩ h).2

def smallConfig : Config where
  award := [⟨2, 1⟩, ⟨1, 1⟩, ⟨0, 1⟩]
  hammer := List.replicate 4
    { baseMoney := 100
      replaceMoney := 200
      awardPower := [1, 0, 0]
      replaceEggReturnFactor := 96
      replaceEggUpgradeRate := 0 }
  skill := [⟨1, 18, 40⟩, ⟨2, 8, 30⟩, ⟨3, 2, 0⟩, ⟨4, 6, 0⟩]

def lowTape : Tape := ⟨fun _ => 0, fun _ => 1⟩

def highTape : Tape := ⟨fun _ => 9 / 10, fun _ => 1⟩

def twoPlayers (tape : Tape) : List Event :=
  [⟨1, .newTable "a", tape⟩, ⟨2, .newTable "b", tape⟩, ⟨2, .playerData fun _ => [], tape⟩,
    ⟨1, .playerData fun _ => [], lowTape⟩]

theorem tables_separate_two :
    Separate smallConfig [1, 2, 3, 4] 2 {} (twoPlayers highTape) :=
  tables_separate
    ⟨fun _ => rfl, ⟨fun _ => rfl, ⟨fun _ => by decide +kernel, ⟨nofun, trivial⟩⟩⟩⟩

/-- An award is kept back from the eggs of one player only, and the other one would have been
the next. -/
theorem tables_meet : ¬Separate smallConfig [1, 2, 3, 4] 2 {} (twoPlayers lowTape) := by
  intro h
  have hanswers := congrArg (List.map Prod.snd) h.answers
  revert hanswers
  decide +kernel

end JyQipai.Zajindan.Room
