import JyQipai.Zajindan.Split

/-!
# What new eggs are

Whatever is drawn, `init_award_data` makes six eggs that count and fills them up to twelve.  The
parts of a skill stand where a strike on its egg looks for them.
-/

namespace JyQipai.Zajindan.Room

open Lib

variable {cfg : Config} {eggs eggs' : List Egg}

def Plain (e : Egg) : Prop := e.isGetAward = false ∧ e.awardType = .normal

def AllPlain (eggs : List Egg) : Prop := ∀ e ∈ eggs, Plain e

theorem AllPlain.append (h : AllPlain eggs) (h' : AllPlain eggs') : AllPlain (eggs ++ eggs') :=
  List.forall_mem_append.mpr ⟨h, h'⟩

theorem allPlain_singleton (id : Nat) : AllPlain [{ id := id }] :=
  List.forall_mem_singleton.mpr ⟨rfl, rfl⟩

/-! ## The eggs carried over -/

theorem Carry.count_old (s : Carry) (id : Nat) : (s.count cfg id).old = s.old := by
  unfold Carry.count
  split
  · rfl
  · split <;> rfl

theorem Carry.group_old {s t : Carry} {egg : Egg} (h : s.group cfg egg = some t) :
    ∃ more, t.old = s.old ++ more ∧ more.length ≤ 1 ∧ AllPlain more := by
  unfold Carry.group at h
  dsimp only at h
  split at h
  next id _ =>
    obtain rfl := Option.some.inj h
    exact ⟨[{ id := id }], Carry.count_old _ _, le_rfl, allPlain_singleton id⟩
  split at h
  next id _ =>
    obtain rfl := Option.some.inj h
    exact ⟨[{ id := id }], Carry.count_old _ _, le_rfl, allPlain_singleton id⟩
  next =>
    obtain ⟨last, -, rfl⟩ := Option.map_eq_some_iff.mp h
    exact ⟨[], by rw [Carry.count_old, List.append_nil], Nat.zero_le 1, List.forall_mem_nil _⟩

theorem Carry.round_old {s t : Carry} {i : Nat} (h : s.round cfg i = some t) :
    ∃ more, t.old = s.old ++ more ∧ more.length ≤ 1 ∧ AllPlain more := by
  have hsame : ∃ more, s.old = s.old ++ more ∧ more.length ≤ 1 ∧ AllPlain more :=
    ⟨[], (List.append_nil _).symm, Nat.zero_le 1, List.forall_mem_nil _⟩
  unfold Carry.round at h
  split at h
  · exact Option.some.inj h ▸ hsame
  next egg _ =>
    split at h
    · exact Option.some.inj h ▸ hsame
    next hgot =>
      split at h
      next hnormal =>
        obtain rfl := Option.some.inj h
        exact ⟨[egg], Carry.count_old _ _, le_rfl,
          List.forall_mem_singleton.mpr ⟨Bool.not_eq_true _ ▸ hgot, hnormal⟩⟩
      next => exact Carry.group_old h

theorem getOldRealEgg_plain {n : Nat} {kickback : Option Nat} {carry : Carry}
    (h : getOldRealEgg cfg eggs n kickback = some carry) :
    carry.old.length ≤ n ∧ AllPlain carry.old := by
  have hfold (l : List Nat) (s : Carry) (hs : AllPlain s.old)
      (h : l.foldlM (Carry.round cfg) s = some carry) :
      carry.old.length ≤ s.old.length + l.length ∧ AllPlain carry.old := by
    induction l generalizing s with
    | nil =>
        obtain rfl := Option.some.inj h
        exact ⟨le_rfl, hs⟩
    | cons i l ih =>
        obtain ⟨t, ht, hl⟩ := Option.bind_eq_some_iff.mp h
        obtain ⟨more, hold, hlen, hmore⟩ := Carry.round_old ht
        obtain ⟨hle, hplain⟩ := ih t (hold ▸ hs.append hmore) hl
        rw [hold, List.length_append] at hle
        rw [List.length_cons]
        exact ⟨by omega, hplain⟩
  obtain ⟨hle, hplain⟩ := hfold _ _ (fun e he => absurd he List.not_mem_nil) h
  rw [List.length_range, List.length_nil, zero_add] at hle
  exact ⟨hle, hplain⟩

/-! ## The eggs that count -/

theorem realEgg_adds (random : ℚ) (b : Build) (keys : List (Nat × ℚ)) :
    Draw.Always (realEgg cfg random b keys) fun b' => b'.skill = b.skill ∧
      ((∃ id, b'.eggs = b.eggs ++ [{ id := id }]) ∨
        b'.eggs = b.eggs ∧ (1 < cfg.award.length → ∀ row ∈ keys, row.1 ≠ cfg.lastId)) := by
  induction keys with
  | nil => exact .pure ⟨rfl, .inr ⟨rfl, fun _ => List.forall_mem_nil _⟩⟩
  | cons row keys ih =>
      obtain ⟨key, rate⟩ := row
      have hskip (hkey : 1 < cfg.award.length → key ≠ cfg.lastId) :
          Draw.Always (realEgg cfg random b keys) fun b' => b'.skill = b.skill ∧
            ((∃ id, b'.eggs = b.eggs ++ [{ id := id }]) ∨ b'.eggs = b.eggs ∧
              (1 < cfg.award.length → ∀ row ∈ (key, rate) :: keys, row.1 ≠ cfg.lastId)) :=
        ih.mono fun b' h => ⟨h.1, h.2.imp id fun h =>
          ⟨h.1, fun htwo => List.forall_mem_cons.mpr ⟨hkey htwo, h.2 htwo⟩⟩⟩
      rw [realEgg]
      split
      next hone =>
        refine hskip fun htwo heq => ?_
        have hkey : key = cfg.award.length := heq
        omega
      split
      · split
        · exact .fail
        · exact .pure ⟨rfl, .inl ⟨key - 1, rfl⟩⟩
      split
      · exact .any fun r => .pure ⟨rfl, .inl ⟨r.1, rfl⟩⟩
      next hnot => exact hskip fun _ heq => hnot (.inr heq)

theorem realEggs_adds (keys : List (Nat × ℚ)) (n : Nat) (b : Build) :
    Draw.Always (realEggs cfg keys n b) fun b' => b'.skill = b.skill ∧
      ∃ more, b'.eggs = b.eggs ++ more ∧ AllPlain more ∧
        (1 < cfg.award.length → (∃ row ∈ keys, row.1 = cfg.lastId) → more.length = n) := by
  induction n generalizing b with
  | zero =>
      exact .pure ⟨rfl, [], (List.append_nil _).symm, List.forall_mem_nil _, fun _ _ => rfl⟩
  | succ n ih =>
      refine .any fun random => .bind (realEgg_adds _ b keys) fun b₁ h₁ => (ih b₁).mono ?_
      rintro b₂ ⟨hskill, more, heggs, hplain, hlen⟩
      obtain ⟨hskill₁, ⟨id, heggs₁⟩ | ⟨heggs₁, hnone⟩⟩ := h₁
      · refine ⟨hskill.trans hskill₁, { id := id } :: more, ?_,
          (allPlain_singleton id).append hplain, fun htwo hlast => ?_⟩
        · rw [heggs, heggs₁, List.append_assoc]
          rfl
        · rw [List.length_cons, hlen htwo hlast]
      · refine ⟨hskill.trans hskill₁, more, heggs₁ ▸ heggs, hplain, fun htwo hlast => ?_⟩
        obtain ⟨row, hrow, heq⟩ := hlast
        exact absurd heq (hnone htwo row hrow)

def marks (eggs : List Egg) : List (Bool × AwardType) :=
  eggs.map fun e => (e.isGetAward, e.awardType)

theorem AllPlain.congr (h : AllPlain eggs) (heq : marks eggs' = marks eggs) : AllPlain eggs' := by
  intro e he
  have hmem : (e.isGetAward, e.awardType) ∈ marks eggs := heq ▸ List.mem_map_of_mem he
  obtain ⟨a, ha, haeq⟩ := List.mem_map.mp hmem
  obtain ⟨hgot, htype⟩ := Prod.mk.inj haeq
  obtain ⟨hgot', htype'⟩ := h a ha
  exact ⟨hgot ▸ hgot', htype ▸ htype'⟩

theorem upgradeFrom_marks (hammer : HammerRow) (money : ℚ) (eggs : List Egg) (n : Nat) :
    Draw.Always (upgradeFrom cfg hammer money eggs n) fun r => marks r.1 = marks eggs := by
  induction n with
  | zero => exact .pure rfl
  | succ n ih =>
      rw [upgradeFrom]
      split
      · exact ih
      next egg hegg =>
        refine .any fun upgrade => ?_
        split
        next id money =>
          obtain ⟨hn, rfl⟩ := List.getElem?_eq_some_iff.mp hegg
          refine .pure (List.ext_getElem (by simp [marks]) fun i hi hi' => ?_)
          simp only [marks, List.getElem_map, List.getElem_set]
          split
          next heq =>
            subst heq
            rfl
          next => rfl
        next => exact ih

theorem tryUpgrade_marks (hammer : HammerRow) (money : ℚ) (eggs : List Egg) :
    Draw.Always (tryUpgrade cfg hammer money eggs) fun r => marks r.1 = marks eggs := by
  refine .any fun random => ?_
  split
  · unfold upgradeEggAwards
    split
    · exact .pure rfl
    · exact upgradeFrom_marks hammer money eggs _
  · exact .pure rfl

theorem lastId_mem_keyRates (hpos : 0 < cfg.award.length) {powers : List ℚ}
    (hlen : cfg.award.length ≤ powers.length) :
    ∃ row ∈ keyRates cfg powers, row.1 = cfg.lastId := by
  have hrates (total rate : ℚ) (l : List ℚ) : (runningRates total l rate).length = l.length := by
    induction l generalizing rate with
    | nil => rfl
    | cons power l ih => rw [runningRates, List.length_cons, List.length_cons, ih]
  have hids : cfg.ids.length = cfg.award.length := List.length_range'
  have hfst : (keyRates cfg powers).map Prod.fst = cfg.ids := by
    rw [keyRates, List.map_fst_zip]
    rw [hrates, hids]
    exact hlen
  have hmem : cfg.lastId ∈ (keyRates cfg powers).map Prod.fst := by
    rw [hfst]
    exact List.mem_range'_1.mpr ⟨hpos, by rw [Config.lastId]; omega⟩
  exact List.mem_map.mp hmem

/-! ## The place of a skill -/

def partType : Nat → AwardType
  | 1 => .openAll
  | 2 => .skyGirlCastFlower
  | 3 => .bigHammer
  | 4 => .free
  | _ => .normal

def payouts (key : Nat) : AwardType → List (List Nat)
  | .skyGirlCastFlower => [[key, realRateEggsNum + 1, realRateEggsNum + 2]]
  | .bigHammer =>
      [[key], [realRateEggsNum + 1, realRateEggsNum + 2],
        [realRateEggsNum + 3, realRateEggsNum + 4, realRateEggsNum + 5]]
  | .free => [[key, realRateEggsNum + 1]]
  | .normal | .openAll => []

def places (key : Nat) (T : AwardType) : List Nat := (payouts key T).flatten

def awardAt (cfg : Config) (eggs : List Egg) (i : Nat) : Int :=
  cfg.awardOf (((eggs[i - 1]?).map Egg.id).getD 0)

structure Laid (cfg : Config) (T : AwardType) (key : Nat) (value : Int) (eggs : List Egg) :
    Prop where
  key_pos : 0 < key
  key_le : key ≤ realRateEggsNum
  reaches : ∀ i ∈ places key T, i ≤ eggs.length
  unopened : ∀ e ∈ eggs, e.isGetAward = false
  type : ∀ i e, eggs[i]? = some e → e.awardType = if i + 1 ∈ places key T then T else .normal
  pays : ∀ group ∈ payouts key T, (group.map (awardAt cfg eggs)).sum = value

section Laid

variable {T : AwardType} {key i : Nat} {value : Int}

theorem places_pos (hkey : 0 < key) (hi : i ∈ places key T) : 0 < i := by
  cases T with
  | normal => cases hi
  | openAll => cases hi
  | skyGirlCastFlower => simp [places, payouts] at hi; omega
  | bigHammer => simp [places, payouts] at hi; omega
  | free => simp [places, payouts] at hi; omega

theorem awardAt_append (hpos : 0 < i) (hi : i ≤ eggs.length) :
    awardAt cfg (eggs ++ eggs') i = awardAt cfg eggs i := by
  rw [awardAt, awardAt, List.getElem?_append_left (by omega)]

theorem Laid.append (h : Laid cfg T key value eggs) (hplain : AllPlain eggs') :
    Laid cfg T key value (eggs ++ eggs') where
  key_pos := h.key_pos
  key_le := h.key_le
  reaches := fun i hi => by
    have := h.reaches i hi
    rw [List.length_append]
    omega
  unopened := List.forall_mem_append.mpr ⟨h.unopened, fun e he => (hplain e he).1⟩
  type := fun i e he => by
    by_cases hi : i < eggs.length
    · exact h.type i e (by rwa [List.getElem?_append_left hi] at he)
    · rw [List.getElem?_append_right (by omega)] at he
      rw [(hplain e (List.mem_of_getElem? he)).2, if_neg]
      intro hmem
      have := h.reaches _ hmem
      omega
  pays := fun group hgroup => by
    rw [← h.pays group hgroup]
    congr 1
    refine List.map_congr_left fun i hi => ?_
    have hmem : i ∈ places key T := List.mem_flatten.mpr ⟨group, hgroup, hi⟩
    exact awardAt_append (places_pos h.key_pos hmem) (h.reaches i hmem)

def laidEggs (eggs : List Egg) (key : Nat) (f : Egg → Egg) (T : AwardType) (ids : List Nat) :
    List Egg :=
  eggs.modify (key - 1) f ++ parts T ids

theorem getElem?_laidEggs (hsix : eggs.length = realRateEggsNum) (f : Egg → Egg) (ids : List Nat)
    (i : Nat) :
    (laidEggs eggs key f T ids)[i]? =
      if i < realRateEggsNum then
        (eggs[i]?).map fun e => if key - 1 = i then f e else e
      else (ids[i - realRateEggsNum]?).map fun id =>
        { id := id
          awardType := T } := by
  have hlen : (eggs.modify (key - 1) f).length = realRateEggsNum := by
    rw [List.length_modify, hsix]
  by_cases hi : i < realRateEggsNum
  · rw [if_pos hi, laidEggs, List.getElem?_append_left (by omega), List.getElem?_modify]
    rfl
  · rw [if_neg hi, laidEggs, List.getElem?_append_right (by omega), hlen, parts,
      List.getElem?_map]

theorem awardAt_key (hsix : eggs.length = realRateEggsNum) (f : Egg → Egg) (ids : List Nat)
    (hkey : key ≤ realRateEggsNum) (hpos : 0 < key) {e : Egg} (he : eggs[key - 1]? = some e) :
    awardAt cfg (laidEggs eggs key f T ids) key = cfg.awardOf (f e).id := by
  rw [awardAt, getElem?_laidEggs hsix, if_pos (by omega), he]
  simp

theorem awardAt_part (hsix : eggs.length = realRateEggsNum) (f : Egg → Egg) {ids : List Nat}
    {j id : Nat} (hj : ids[j]? = some id) :
    awardAt cfg (laidEggs eggs key f T ids) (realRateEggsNum + (j + 1)) = cfg.awardOf id := by
  rw [awardAt, getElem?_laidEggs hsix, if_neg (by omega),
    show realRateEggsNum + (j + 1) - 1 - realRateEggsNum = j by omega, hj]
  rfl

theorem map_awardAt_parts (hsix : eggs.length = realRateEggsNum) (f : Egg → Egg)
    (ids : List Nat) :
    (List.range' (realRateEggsNum + 1) ids.length).map
        (awardAt cfg (laidEggs eggs key f T ids)) =
      ids.map cfg.awardOf := by
  refine List.ext_getElem (by simp) fun j hj hj' => ?_
  rw [List.length_map] at hj'
  rw [List.getElem_map, List.getElem_map, List.getElem_range', one_mul, Nat.add_right_comm,
    Nat.add_assoc, awardAt_part hsix f (List.getElem?_eq_getElem hj')]

theorem laid_laidEggs (hplain : AllPlain eggs) (hsix : eggs.length = realRateEggsNum)
    (hpos : 0 < key) (hle : key ≤ realRateEggsNum) {f : Egg → Egg}
    (hf : ∀ e, (f e).isGetAward = e.isGetAward ∧ (f e).awardType = T) {ids : List Nat}
    (hplaces : ∀ i, i ∈ places key T ↔
      i = key ∨ realRateEggsNum < i ∧ i ≤ realRateEggsNum + ids.length)
    (hpays : ∀ group ∈ payouts key T,
      (group.map (awardAt cfg (laidEggs eggs key f T ids))).sum = value) :
    Laid cfg T key value (laidEggs eggs key f T ids) where
  key_pos := hpos
  key_le := hle
  reaches := fun i hi => by
    rw [laidEggs, List.length_append, List.length_modify, hsix, parts, List.length_map]
    rcases (hplaces i).mp hi with rfl | ⟨-, h⟩ <;> omega
  unopened := fun e he => by
    obtain ⟨i, hi⟩ := List.getElem?_of_mem he
    rw [getElem?_laidEggs hsix] at hi
    split at hi
    · obtain ⟨a, ha, rfl⟩ := Option.map_eq_some_iff.mp hi
      have hgot := (hplain a (List.mem_of_getElem? ha)).1
      split
      · rw [(hf a).1, hgot]
      · exact hgot
    · obtain ⟨id, -, rfl⟩ := Option.map_eq_some_iff.mp hi
      rfl
  type := fun i e he => by
    rw [getElem?_laidEggs hsix] at he
    split at he
    next hi =>
      obtain ⟨a, ha, rfl⟩ := Option.map_eq_some_iff.mp he
      by_cases hkey : key - 1 = i
      · rw [if_pos hkey, if_pos ((hplaces _).mpr (.inl (by omega))), (hf a).2]
      · have hnot : i + 1 ∉ places key T := fun hmem => by
          rcases (hplaces _).mp hmem with h | ⟨h, -⟩ <;> omega
        rw [if_neg hkey, if_neg hnot, (hplain a (List.mem_of_getElem? ha)).2]
    next hi =>
      obtain ⟨id, hid, rfl⟩ := Option.map_eq_some_iff.mp he
      obtain ⟨hlt, -⟩ := List.getElem?_eq_some_iff.mp hid
      rw [if_pos ((hplaces _).mpr (.inr ⟨by omega, by omega⟩))]
  pays := hpays

end Laid

section Skill

variable {b : Build} {c : Candidate}

def OnEgg (cfg : Config) (eggs : List Egg) (value : Int) (key : Nat) : Prop :=
  0 < key → ∃ e, eggs[key - 1]? = some e ∧ cfg.awardOf e.id = value

def Created (cfg : Config) (b : Build) : Prop :=
  ∀ c, b.skill = some c → c.skillId ∈ [2, 3, 4] →
    Laid cfg (partType c.skillId) c.awardKey c.awardValue b.eggs ∧
      b.eggs.length ≤ totalEggsNum

theorem created_none (h : b.skill = none) : Created cfg b := by
  intro c hc
  rw [h] at hc
  cases hc

theorem maxAward_fold (l : List (Egg × Nat)) (best : Int × Nat) (hl : ∀ p ∈ l, p ∈ eggs.zipIdx)
    (hbest : OnEgg cfg eggs best.1 best.2) :
    let best := l.foldl (fun best (egg, i) =>
      if best.1 < cfg.awardOf egg.id then (cfg.awardOf egg.id, i + 1) else best) best
    OnEgg cfg eggs best.1 best.2 := by
  induction l generalizing best with
  | nil => exact hbest
  | cons p l ih =>
      refine ih _ (fun q hq => hl q (List.mem_cons_of_mem _ hq)) ?_
      dsimp only
      split
      · exact fun _ => ⟨p.1, List.mem_zipIdx_iff_getElem?.mp (hl p List.mem_cons_self), rfl⟩
      · exact hbest

theorem maxAward_onEgg : OnEgg cfg eggs (maxAward cfg eggs).1 (maxAward cfg eggs).2 :=
  maxAward_fold _ _ (fun _ hp => hp) fun h => absurd h (lt_irrefl 0)

theorem canSkillVec_onEgg {first : SkillRow} {group : List Candidate}
    (hgroup : group ∈ canSkillVec cfg first eggs) (hc : c ∈ group) :
    OnEgg cfg eggs c.awardValue c.awardKey := by
  unfold canSkillVec at hgroup
  dsimp only at hgroup
  split at hgroup
  · obtain rfl := List.mem_singleton.mp hgroup
    obtain rfl := List.mem_singleton.mp hc
    exact maxAward_onEgg
  · obtain ⟨⟨skill, k⟩, -, rfl⟩ := List.mem_map.mp (List.mem_of_mem_filter hgroup)
    obtain ⟨⟨egg, i⟩, hegg, hsome⟩ := List.mem_filterMap.mp hc
    dsimp only at hsome
    split at hsome
    · obtain rfl := Option.some.inj hsome
      exact fun _ => ⟨egg, List.mem_zipIdx_iff_getElem?.mp hegg, rfl⟩
    · cases hsome

theorem splitEgg_skill (hnone : b.skill = none) (c : Candidate) (T : AwardType)
    (ids : List Nat) :
    Draw.Always (splitEgg cfg b c T ids) fun b' => b'.skill = none ∨ b'.skill = some c := by
  cases ids with
  | nil => exact .pure (.inl hnone)
  | cons id ids =>
      rw [splitEgg]
      split
      · exact .fail
      · exact .pure (.inr rfl)

variable (hplain : AllPlain b.eggs)
  (hsix : 1 < cfg.award.length → b.eggs.length = realRateEggsNum) (hnone : b.skill = none)
  (hc : OnEgg cfg b.eggs c.awardValue c.awardKey)

include hplain hsix hnone hc

theorem splitEgg_created {T : AwardType} (hT : partType c.skillId = T) (hall : T ≠ .openAll)
    {num : Nat} {ids : List Nat}
    (hids : ids = [] ∨ Amounts cfg c.awardValue (num + 1) ids)
    (hnum : realRateEggsNum + num ≤ totalEggsNum)
    (hpayouts : payouts c.awardKey T = [c.awardKey :: List.range' (realRateEggsNum + 1) num]) :
    Draw.Always (splitEgg cfg b c T ids) (Created cfg) := by
  rcases hids with rfl | hids
  · exact .pure (created_none hnone)
  obtain ⟨id, ids, rfl⟩ : ∃ id rest, ids = id :: rest := by
    obtain ⟨-, hlen, -⟩ := hids
    exact List.exists_cons_of_length_eq_add_one hlen
  have hsix := hsix hids.two
  have hlen : ids.length = num := by simpa using hids.length
  rw [splitEgg]
  split
  · exact .fail
  next hkey =>
    refine .pure fun c' hc' hid => ?_
    obtain rfl : c = c' := Option.some.inj hc'
    have hpos : 0 < c.awardKey := Nat.pos_of_ne_zero hkey
    obtain ⟨e, he, -⟩ := hc hpos
    have hle : c.awardKey ≤ realRateEggsNum := by
      have := (List.getElem?_eq_some_iff.mp he).1
      omega
    let f : Egg → Egg := fun e =>
      { e with
        id := id
        awardType := T }
    rw [hT]
    refine ⟨laid_laidEggs (f := f) hplain hsix hpos hle (fun e => ⟨rfl, rfl⟩)
      (fun i => ?_) fun group hgroup => ?_, ?_⟩
    · rw [places, hpayouts, List.flatten_cons, List.flatten_nil, List.append_nil, List.mem_cons,
        List.mem_range'_1]
      omega
    · rw [hpayouts] at hgroup
      obtain rfl := List.mem_singleton.mp hgroup
      have hsum := hids.sum
      rw [List.map_cons, List.sum_cons] at hsum
      rw [← hlen, List.map_cons, List.sum_cons, map_awardAt_parts hsix,
        awardAt_key hsix f ids hle hpos he]
      exact hsum
    · change (laidEggs b.eggs c.awardKey f T ids).length ≤ totalEggsNum
      rw [laidEggs, List.length_append, List.length_modify, hsix, parts, List.length_map]
      omega

omit hnone in
theorem bigHammer_created (hid : c.skillId = 3) {two three : List Nat}
    (htwo : Amounts cfg c.awardValue 2 two) (hthree : Amounts cfg c.awardValue 3 three)
    (hkey : 0 < c.awardKey) :
    Created cfg { b with
      eggs := b.eggs.modify (c.awardKey - 1) (fun e => { e with awardType := .bigHammer }) ++
        parts .bigHammer two ++ parts .bigHammer three
      skill := some c } := by
  have hsix := hsix htwo.two
  intro c' hc' _
  obtain rfl : c = c' := Option.some.inj hc'
  obtain ⟨e, he, haward⟩ := hc hkey
  have hle : c.awardKey ≤ realRateEggsNum := by
    have := (List.getElem?_eq_some_iff.mp he).1
    omega
  let f : Egg → Egg := fun e => { e with awardType := .bigHammer }
  have heggs : b.eggs.modify (c.awardKey - 1) f ++ parts .bigHammer two ++
      parts .bigHammer three = laidEggs b.eggs c.awardKey f .bigHammer (two ++ three) := by
    rw [laidEggs, List.append_assoc, parts, parts, parts, List.map_append]
  obtain ⟨hsum2, hlen2, -⟩ := htwo
  obtain ⟨hsum3, hlen3, -⟩ := hthree
  have hlen : (two ++ three).length = 5 := by rw [List.length_append, hlen2, hlen3]
  rw [hid]
  change Laid cfg .bigHammer c.awardKey c.awardValue (_ ++ _ ++ _) ∧
    (_ ++ _ ++ _ : List Egg).length ≤ totalEggsNum
  rw [heggs]
  refine ⟨laid_laidEggs (f := f) hplain hsix hkey hle (fun e => ⟨rfl, rfl⟩) (fun i => ?_)
    fun group hgroup => ?_, ?_⟩
  · rw [hlen]
    simp only [places, payouts, List.flatten_cons, List.flatten_nil, List.append_nil,
      List.mem_append, List.mem_cons, List.not_mem_nil, or_false]
    omega
  · let award : Nat → Int := awardAt cfg (laidEggs b.eggs c.awardKey f .bigHammer (two ++ three))
    have hparts : (List.range' (realRateEggsNum + 1) (two ++ three).length).map award =
        (two ++ three).map cfg.awardOf := map_awardAt_parts hsix f _
    have hsplit : List.range' (realRateEggsNum + 1) 5 =
        List.range' (realRateEggsNum + 1) 2 ++ List.range' (realRateEggsNum + 3) 3 := rfl
    rw [hlen, hsplit, List.map_append, List.map_append] at hparts
    obtain ⟨h2, h3⟩ := List.append_inj hparts.symm
      (by rw [List.length_map, List.length_map, hlen2, List.length_range'])
    simp only [payouts, List.mem_cons, List.not_mem_nil, or_false] at hgroup
    rcases hgroup with rfl | rfl | rfl
    · rw [List.map_singleton, List.sum_singleton, awardAt_key hsix f _ hle hkey he]
      exact haward
    · rw [← hsum2, h2]
      rfl
    · rw [← hsum3, h3]
      rfl
  · rw [laidEggs, List.length_append, List.length_modify, hsix, parts, List.length_map, hlen]
    decide

theorem createSkill_created : Draw.Always (createSkill cfg b c) (Created cfg) := by
  unfold createSkill
  split
  next hid =>
    -- the first skill is not one of these
    refine .any fun ids => (splitEgg_skill hnone c .openAll ids).mono fun b' h => ?_
    rcases h with h | h
    · exact created_none h
    · intro c' hc' hmem
      obtain rfl : c = c' := Option.some.inj (h.symm.trans hc')
      rw [hid] at hmem
      exact absurd hmem (by decide)
  next hid =>
    exact .bind (getResolve_amounts (by decide) _) fun ids hids =>
      splitEgg_created (T := .skyGirlCastFlower) hplain hsix hnone hc (by rw [hid]; rfl) nofun
        hids (by decide) rfl
  next hid =>
    refine .bind (getResolve_amounts (by decide) _) fun two htwo =>
      .bind (getResolve_amounts (by decide) _) fun three hthree => ?_
    split
    · exact .pure (created_none hnone)
    next hne =>
      split
      · exact .fail
      next hkey =>
        exact .pure (bigHammer_created hplain hsix hc hid
          (htwo.resolve_left fun h => hne (.inl h)) (hthree.resolve_left fun h => hne (.inr h))
          (Nat.pos_of_ne_zero hkey))
  next hid =>
    exact .bind (getResolve_amounts (by decide) _) fun ids hids =>
      splitEgg_created (T := .free) hplain hsix hnone hc (by rw [hid]; rfl) nofun hids
        (by decide) rfl
  next => exact .pure (created_none hnone)

omit hc in
theorem chooseSkill_created : Draw.Always (chooseSkill cfg b) (Created cfg) := by
  refine .any fun first => ?_
  dsimp only
  split
  · exact .pure (created_none hnone)
  · refine .bind (Draw.always_choose _) fun group hgroup =>
      .bind (Draw.always_choose _) fun c hc => .any fun random => .any fun skill => ?_
    split
    · exact createSkill_created hplain hsix hnone (canSkillVec_onEgg hgroup hc)
    · exact .pure (created_none hnone)

end Skill

/-! ## All eggs -/

theorem ensureAwardNum_fills (eggs : List Egg) (id : Nat) (least most : Int) :
    Draw.Always (ensureAwardNum eggs id least most) fun eggs' => ∃ more,
      eggs' = eggs ++ more ∧ AllPlain more ∧
        (eggs.length ≤ totalEggsNum → eggs'.length ≤ totalEggsNum) := by
  refine .any fun target => .pure ⟨_, rfl, fun e he => ?_, fun hle => ?_⟩
  · rw [(List.mem_replicate.mp he).2]
    exact ⟨rfl, rfl⟩
  · rw [List.length_append, List.length_replicate]
    omega

theorem showEggs_fills (keys : List (Nat × ℚ)) (n : Nat) (eggs : List Egg) :
    Draw.Always (showEggs cfg keys n eggs) fun eggs' => ∃ more,
      eggs' = eggs ++ more ∧ AllPlain more ∧ more.length = n := by
  induction n generalizing eggs with
  | zero => exact .pure ⟨[], (List.append_nil _).symm, List.forall_mem_nil _, rfl⟩
  | succ n ih =>
      refine .any fun random => .any fun row => (ih _).mono ?_
      rintro eggs' ⟨more, rfl, hplain, hlen⟩
      refine ⟨{ id := row.1 } :: more, by rw [List.append_assoc]; rfl,
        (allPlain_singleton row.1).append hplain, by rw [List.length_cons, hlen]⟩

theorem fillEggs_fills (b : Build) :
    Draw.Always (fillEggs cfg b) fun eggs => ∃ more, eggs = b.eggs ++ more ∧ AllPlain more ∧
      (b.eggs.length ≤ totalEggsNum → eggs.length = totalEggsNum) := by
  refine .bind (ensureAwardNum_fills _ _ _ _) ?_
  rintro _ ⟨empty, rfl, hempty, hle⟩
  refine .bind (ensureAwardNum_fills _ _ _ _) ?_
  rintro _ ⟨highest, rfl, hhighest, hle'⟩
  refine (showEggs_fills _ _ _).mono ?_
  rintro _ ⟨show', rfl, hshow, hlen⟩
  refine ⟨empty ++ highest ++ show', by simp only [List.append_assoc],
    (hempty.append hhighest).append hshow, fun h => ?_⟩
  have := hle' (hle h)
  rw [List.length_append, hlen]
  omega

theorem countingEggs_created (hammer : HammerRow) (isChangeEgg : Bool) {carry : Carry}
    (hlen : carry.old.length ≤ realRateEggsNum) (hplain : AllPlain carry.old) (money : ℚ) :
    Draw.Always (countingEggs cfg hammer isChangeEgg carry money) fun r =>
      Created cfg r.1 := by
  unfold countingEggs
  dsimp only
  generalize (if isChangeEgg = true then hammer.awardPowerReplaceEgg.getD hammer.awardPower
    else hammer.awardPower) = powers
  by_cases hpowers : powers.length < cfg.award.length
  · rw [if_pos hpowers]
    exact .fail
  rw [if_neg hpowers]
  refine .bind (realEggs_adds _ _ _) ?_
  rintro b ⟨hnone, more, heggs, hmore, hsix⟩
  refine .bind (tryUpgrade_marks hammer money b.eggs) fun r hr =>
    .bind (chooseSkill_created ?_ (fun htwo => ?_) hnone) fun b' hb' => .pure hb'
  · exact (heggs ▸ hplain.append hmore : AllPlain b.eggs).congr hr
  · have hmarks := congrArg List.length hr
    rw [marks, marks, List.length_map, List.length_map] at hmarks
    have hkeys := hsix htwo (lastId_mem_keyRates (by omega) (by rw [List.length_take]; omega))
    change r.1.length = realRateEggsNum
    rw [hmarks, heggs, List.length_append, hkeys]
    exact Nat.add_sub_cancel' hlen

theorem initAwardData_laid (hammer : HammerRow) (isChangeEgg : Bool) (old : List Egg) (money : ℚ)
    (kickback : Option Nat) :
    Draw.Always (initAwardData cfg hammer isChangeEgg old money kickback) fun init =>
      ∀ c, init.skill = some c → c.skillId ∈ [2, 3, 4] →
        Laid cfg (partType c.skillId) c.awardKey c.awardValue init.awardData ∧
          init.awardData.length = totalEggsNum := by
  refine .bind (P := fun carry => carry.old.length ≤ realRateEggsNum ∧ AllPlain carry.old) ?_
    fun carry hcarry => .bind
      (countingEggs_created hammer isChangeEgg hcarry.1 hcarry.2 money) fun r hr =>
        .bind (fillEggs_fills r.1) ?_
  · intro t k r hr
    obtain ⟨carry, hcarry, rfl⟩ := Option.map_eq_some_iff.mp hr
    exact getOldRealEgg_plain hcarry
  · rintro _ ⟨more, rfl, hplain, hlen⟩
    refine .pure fun c hc hid => ?_
    obtain ⟨hlaid, hle⟩ := hr c hc hid
    exact ⟨hlaid.append hplain, hlen hle⟩

end JyQipai.Zajindan.Room
