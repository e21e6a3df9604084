import JyQipai.Mj.Ting

/-!
# A kong after a win

Who has won may still make a kong if the tiles waited for stay the same.
`check_xueliu_hu_gang` compares their numbers; the loop that should compare the tiles walks
`ipairs` over a map whose keys are tiles, so it meets nothing.
-/

namespace JyQipai.Mj.Algorithm

open JyQipai.Lib

/-- The result of `get_ting_map_info`: the entries by their tiles, and `total_count`. -/
structure TingMap where
  byPai : HashTable Nat TingInfo
  totalCount : Option Nat

def toTingMap (list : List TingInfo) : TingMap :=
  (list.zipIdx 1).foldl (fun map v => ⟨map.byPai.insert v.1.tingPai v.1, some v.2⟩) ⟨∅, none⟩

def getTingMapInfo (self : Algorithm) (pai : PaiMap) (pg : PgMap) (mustQue : Option Nat) :
    Option (Option TingMap) :=
  (getTingInfo self pai pg mustQue).map (Option.map toTingMap)

def sameTing (list tingMap : TingMap) : Bool :=
  list.totalCount = tingMap.totalCount ∧ (∃ n ∈ list.totalCount, n > 0) ∧
    ∀ v ∈ list.byPai.ipairs, (tingMap.byPai.lookup v.tingPai).isSome

/-- A kong on trial: the tiles leave the hand, and `num` of them come back afterwards. -/
def tryGang (self : Algorithm) (pai : PaiMap) (pg : PgMap) (mustQue : Option Nat) (gangPai : Nat)
    (type : PgType) (num : Nat) (back : PgMap → PgMap) (tingMap : TingMap) :
    Option (Bool × PaiMap × PgMap) :=
  let pai := pai.erase gangPai
  let pg := pg.insert gangPai type
  (getTingMapInfo self pai pg mustQue).map fun list =>
    (list.any fun list => sameTing list tingMap, pai.insert gangPai num, back pg)

def checkXueliuHuGang (self : Algorithm) (pai : PaiMap) (pg : PgMap) (mustQue : Option Nat)
    (gangPai : Nat) (tingMap : TingMap) : Option (Bool × PaiMap × PgMap) :=
  if 0 < pai.num gangPai then
    if pai.num gangPai = 1 ∧ pg.lookup gangPai = some .peng then
      tryGang self pai pg mustQue gangPai .wg 1 (·.insert gangPai .peng) tingMap
    else if pai.num gangPai > 3 then
      tryGang self pai pg mustQue gangPai .ag (pai.num gangPai) (·.erase gangPai) tingMap
    else some (false, pai, pg)
  else some (false, pai, pg)

def gangType (pai : PaiMap) (pg : PgMap) (gangPai : Nat) : Option PgType :=
  if pai.num gangPai = 1 ∧ pg.lookup gangPai = some .peng then some .wg
  else if pai.num gangPai > 3 then some .ag
  else none

def waitsAfter (self : Algorithm) (pai : PaiMap) (pg : PgMap) (mustQue : Option Nat)
    (gangPai : Nat) (type : PgType) : Set Nat :=
  {s | WaitsFor self (pai.erase gangPai) (pg.insert gangPai type) mustQue s}

/-! ## The map of the waits -/

variable {pai : PaiMap} {pg : PgMap} {list : List TingInfo}

theorem foldl_toTingMap (list : List TingInfo) (map : TingMap) (i : Nat) :
    let r := (list.zipIdx i).foldl
      (fun map v => (⟨map.byPai.insert v.1.tingPai v.1, some v.2⟩ : TingMap)) map
    (∀ s, s ∈ r.byPai ↔ s ∈ map.byPai ∨ s ∈ list.map TingInfo.tingPai) ∧
      r.totalCount = if list = [] then map.totalCount else some (i + list.length - 1) := by
  induction list generalizing map i with
  | nil => exact ⟨fun s => by simp, rfl⟩
  | cons v list ih =>
      obtain ⟨hkeys, htotal⟩ := ih ⟨map.byPai.insert v.tingPai v, some i⟩ (i + 1)
      refine ⟨fun s => (hkeys s).trans ?_, htotal.trans ?_⟩
      · rw [AList.mem_insert, List.map_cons, List.mem_cons]
        tauto
      · rw [if_neg (List.cons_ne_nil v list), List.length_cons]
        split
        · next h =>
            subst h
            rfl
        · congr 1
          omega

theorem mem_toTingMap {s : Nat} :
    s ∈ (toTingMap list).byPai ↔ s ∈ list.map TingInfo.tingPai := by
  refine ((foldl_toTingMap list ⟨∅, none⟩ 1).1 s).trans ?_
  simp

theorem totalCount_toTingMap :
    (toTingMap list).totalCount = if list = [] then none else some list.length := by
  refine (foldl_toTingMap list ⟨∅, none⟩ 1).2.trans ?_
  rw [Nat.add_sub_cancel_left]

theorem foldlM_tingStep_sublist {self : Algorithm} {huaSeCount : Nat} {l : List Nat} :
    ∀ {copy : PaiMap} {list : List TingInfo} {st : PaiMap × List TingInfo},
      l.foldlM (tingStep self pg huaSeCount) (copy, list) = some st →
      ∃ l', l'.Sublist l ∧ st.2.map TingInfo.tingPai = list.map TingInfo.tingPai ++ l' := by
  induction l with
  | nil =>
      intro copy list st h
      obtain rfl := Option.some.inj h
      exact ⟨[], .slnil, (List.append_nil _).symm⟩
  | cons s l ih =>
      intro copy list st h
      rw [List.foldlM_cons, tingStep] at h
      cases hres : tryTing self pg huaSeCount s (copy.add s) with
      | none =>
          rw [hres] at h
          exact absurd h (by simp)
      | some res =>
          rw [hres] at h
          obtain ⟨l', hl', hmap⟩ := ih h
          cases res with
          | none =>
              refine ⟨l', hl'.cons s, hmap.trans ?_⟩
              simp
          | some info =>
              refine ⟨s :: l', hl'.cons_cons s, hmap.trans ?_⟩
              simp

theorem getTingInfo_nodup {self : Algorithm} {mustQue : Option Nat} {res : Option (List TingInfo)}
    (h : getTingInfo self pai pg mustQue = some res) :
    ((res.getD []).map TingInfo.tingPai).Nodup := by
  by_cases hcount : (pai.count + pg.count : Int) = baseShouPaiNum self
  · rw [getTingInfo_eq self hcount] at h
    split at h
    · obtain rfl := Option.some.inj h
      exact List.nodup_nil
    · obtain ⟨st, hst, rfl⟩ := Option.map_eq_some_iff.mp h
      obtain ⟨l', hl', hmap⟩ := foldlM_tingStep_sublist hst
      have hnodup : (st.2.map TingInfo.tingPai).Nodup := by
        rw [hmap]
        exact hl'.nodup (by decide)
      split
      · exact List.nodup_nil
      · exact hnodup
  · have hcount' : ((pai.count : Int) + pg.count) ≠ baseShouPaiNum self := hcount
    unfold getTingInfo at h
    dsimp only at h
    rw [tongjiPenggangInfo_count, Port.tongjiPaiInfo_count, if_pos (.inl hcount')] at h
    obtain rfl := Option.some.inj h
    exact List.nodup_nil

theorem getTingInfo_ne_nil {self : Algorithm} {mustQue : Option Nat} {list : List TingInfo}
    (h : getTingInfo self pai pg mustQue = some (some list)) : list ≠ [] := by
  unfold getTingInfo at h
  dsimp only at h
  split at h
  · exact absurd h (by simp)
  · split at h
    · exact absurd h (by simp)
    · obtain ⟨st, -, hst⟩ := Option.map_eq_some_iff.mp h
      split at hst
      · exact absurd hst (by simp)
      · next hne => exact Option.some.inj hst ▸ hne

theorem ncard_map_tingPai (h : (list.map TingInfo.tingPai).Nodup) :
    {s | s ∈ list.map TingInfo.tingPai}.ncard = list.length := by
  have hset : {s | s ∈ list.map TingInfo.tingPai} =
      ↑(list.map TingInfo.tingPai).toFinset := by
    ext s
    simp
  rw [hset, Set.ncard_coe_finset, List.toFinset_card_of_nodup h, List.length_map]

theorem ipairs_toTingMap (hlist : ∀ t ∈ list, t.tingPai ∈ paiIds) :
    (toTingMap list).byPai.ipairs = [] := by
  have hone : (toTingMap list).byPai.lookup 1 = none := by
    rw [AList.lookup_eq_none, mem_toTingMap]
    intro hmem
    obtain ⟨t, ht, h1⟩ := List.mem_map.mp hmem
    have := le_of_mem_paiIds (hlist t ht)
    omega
  unfold HashTable.ipairs
  cases (toTingMap list).byPai.entries.length with
  | zero => rfl
  | succ n => rw [HashTable.ipairs.go, hone]

theorem sameTing_iff {tingMap : TingMap} (hlist : ∀ t ∈ list, t.tingPai ∈ paiIds)
    (hne : list ≠ []) :
    sameTing (toTingMap list) tingMap = true ↔ tingMap.totalCount = some list.length := by
  have hpos := List.length_pos_of_ne_nil hne
  rw [sameTing, decide_eq_true_eq, ipairs_toTingMap hlist, totalCount_toTingMap, if_neg hne]
  constructor
  · intro h
    exact h.1.symm
  · intro h
    exact ⟨h.symm, ⟨_, rfl, hpos⟩, fun v hv => absurd hv List.not_mem_nil⟩

/-! ## When the answer is right -/

theorem tryGang_spec (self : Algorithm) (hpai : pai.Tiles) (hpg : pg.Tiles)
    (mustQue : Option Nat) {gangPai : Nat} (hgang : gangPai ∈ paiIds) (type : PgType) (num : Nat)
    (back : PgMap → PgMap) {before : List TingInfo} (hbefore : before ≠ []) :
    ∃ b, tryGang self pai pg mustQue gangPai type num back (toTingMap before) =
        some (b, (pai.erase gangPai).insert gangPai num, back (pg.insert gangPai type)) ∧
      (b = true ↔ (waitsAfter self pai pg mustQue gangPai type).ncard = before.length) := by
  have hpai' : PaiMap.Tiles (pai.erase gangPai) := fun k hk =>
    hpai k (AList.mem_keys.mp (AList.mem_erase.mp (AList.mem_keys.mpr hk)).2)
  have hpg' : PgMap.Tiles (pg.insert gangPai type) := by
    intro k hk
    rcases (AList.mem_insert pg).mp (AList.mem_keys.mpr hk) with rfl | hk
    · exact hgang
    · exact hpg k (AList.mem_keys.mp hk)
  obtain ⟨res, hres, hwaits⟩ := getTingInfo_waitsFor self hpai' hpg' mustQue
  have hset : waitsAfter self pai pg mustQue gangPai type =
      {s | s ∈ (res.getD []).map TingInfo.tingPai} := by
    ext s
    exact (hwaits s).symm.trans List.mem_map.symm
  have hcard := ncard_map_tingPai (getTingInfo_nodup hres)
  have hlist : ∀ t ∈ res.getD [], t.tingPai ∈ paiIds := fun t ht =>
    ((hwaits t.tingPai).mp ⟨t, ht, rfl⟩).2.2.1
  rw [hset, hcard]
  unfold tryGang getTingMapInfo
  dsimp only
  rw [hres]
  refine ⟨_, rfl, ?_⟩
  cases res with
  | none =>
      have := List.length_pos_of_ne_nil hbefore
      simp
      omega
  | some list =>
      have hne := getTingInfo_ne_nil hres
      change ∀ t ∈ list, t.tingPai ∈ paiIds at hlist
      simp only [Option.map_some, Option.any_some, Option.getD_some]
      rw [sameTing_iff hlist hne, totalCount_toTingMap, if_neg hbefore, Option.some.injEq, eq_comm]

theorem lookup_erase_insert {K V : Type} [DecidableEq K] {t : HashTable K V} {k : K} {v : V}
    (h : t.lookup k = some v) (k' : K) : ((t.erase k).insert k v).lookup k' = t.lookup k' := by
  by_cases hk : k' = k
  · rw [hk, AList.lookup_insert, h]
  · rw [AList.lookup_insert_ne hk, AList.lookup_erase_ne hk]

theorem lookup_insert_insert {K V : Type} [DecidableEq K] {t : HashTable K V} {k : K} {v w : V}
    (h : t.lookup k = some v) (k' : K) : ((t.insert k w).insert k v).lookup k' = t.lookup k' := by
  by_cases hk : k' = k
  · rw [hk, AList.lookup_insert, h]
  · rw [AList.lookup_insert_ne hk, AList.lookup_insert_ne hk]

theorem lookup_insert_erase_iff {K V : Type} [DecidableEq K] {t : HashTable K V} {k : K} {w : V} :
    (∀ k', ((t.insert k w).erase k).lookup k' = t.lookup k') ↔ k ∉ t := by
  constructor
  · intro h
    rw [← AList.lookup_eq_none, ← h k, AList.lookup_erase]
  · intro h k'
    by_cases hk : k' = k
    · rw [hk, AList.lookup_erase, AList.lookup_eq_none.mpr h]
    · rw [AList.lookup_erase_ne hk, AList.lookup_insert_ne hk]

/-- The answer keeps the waits, and the tables come out as they were, exactly if no meld of the
tile lies beside four in the hand and the waits after the kong are not as many others. -/
theorem checkXueliuHuGang_iff (self : Algorithm) (pai : PaiMap) (pg : PgMap) (hpai : pai.Tiles)
    (hpg : pg.Tiles) (mustQue : Option Nat) (gangPai : Nat) (tingMap : TingMap)
    (hting : ∃ pai₀ pg₀, getTingMapInfo self pai₀ pg₀ mustQue = some (some tingMap)) :
    ∃ b pai' pg', checkXueliuHuGang self pai pg mustQue gangPai tingMap = some (b, pai', pg') ∧
      ((b = true → ∃ type ∈ gangType pai pg gangPai,
          waitsAfter self pai pg mustQue gangPai type = {s | s ∈ tingMap.byPai}) ∧
        (∀ s, pai'.lookup s = pai.lookup s) ∧ (∀ s, pg'.lookup s = pg.lookup s) ↔
      ∀ type ∈ gangType pai pg gangPai, (type = .ag → gangPai ∉ pg) ∧
        ((waitsAfter self pai pg mustQue gangPai type).ncard = {s | s ∈ tingMap.byPai}.ncard →
          waitsAfter self pai pg mustQue gangPai type = {s | s ∈ tingMap.byPai})) := by
  obtain ⟨pai₀, pg₀, hbefore⟩ := hting
  obtain ⟨res, hres, hmap⟩ := Option.map_eq_some_iff.mp hbefore
  obtain ⟨before, rfl, rfl⟩ := Option.map_eq_some_iff.mp hmap
  have hne := getTingInfo_ne_nil hres
  have hkeys : {s | s ∈ (toTingMap before).byPai} = {s | s ∈ before.map TingInfo.tingPai} := by
    ext s
    exact mem_toTingMap
  have hcard : {s | s ∈ (toTingMap before).byPai}.ncard = before.length := by
    rw [hkeys]
    exact ncard_map_tingPai (getTingInfo_nodup hres)
  rw [hcard]
  unfold checkXueliuHuGang gangType
  by_cases hpos : 0 < pai.num gangPai
  · have hgang := hpai.num_ne_zero hpos.ne'
    have hsome : pai.lookup gangPai = some (pai.num gangPai) := by
      unfold PaiMap.num at hpos ⊢
      cases h : pai.lookup gangPai with
      | none =>
          rw [h] at hpos
          exact absurd hpos (Nat.lt_irrefl 0)
      | some n => rfl
    rw [if_pos hpos]
    by_cases hwg : pai.num gangPai = 1 ∧ pg.lookup gangPai = some .peng
    · obtain ⟨b, hb, hanswer⟩ := tryGang_spec self hpai hpg mustQue hgang .wg 1
        (·.insert gangPai .peng) hne
      rw [if_pos hwg, if_pos hwg]
      refine ⟨_, _, _, hb, ?_⟩
      have hback := lookup_erase_insert (hwg.1 ▸ hsome)
      have hback' := lookup_insert_insert (w := PgType.wg) hwg.2
      constructor
      · rintro ⟨hkeeps, -, -⟩ type htype
        obtain rfl := Option.some.inj htype
        refine ⟨fun h => absurd h (by decide), fun hsame => ?_⟩
        obtain ⟨type, htype, heq⟩ := hkeeps (hanswer.mpr hsame)
        obtain rfl := Option.some.inj htype
        exact heq
      · intro h
        exact ⟨fun hb => ⟨.wg, rfl, (h .wg rfl).2 (hanswer.mp hb)⟩, hback, hback'⟩
    · rw [if_neg hwg, if_neg hwg]
      by_cases hag : pai.num gangPai > 3
      · obtain ⟨b, hb, hanswer⟩ := tryGang_spec self hpai hpg mustQue hgang .ag (pai.num gangPai)
          (·.erase gangPai) hne
        rw [if_pos hag, if_pos hag]
        refine ⟨_, _, _, hb, ?_⟩
        have hback := lookup_erase_insert hsome
        constructor
        · rintro ⟨hkeeps, -, hpg'⟩ type htype
          obtain rfl := Option.some.inj htype
          refine ⟨fun _ => lookup_insert_erase_iff.mp hpg', fun hsame => ?_⟩
          obtain ⟨type, htype, heq⟩ := hkeeps (hanswer.mpr hsame)
          obtain rfl := Option.some.inj htype
          exact heq
        · intro h
          exact ⟨fun hb => ⟨.ag, rfl, (h .ag rfl).2 (hanswer.mp hb)⟩, hback,
            lookup_insert_erase_iff.mpr ((h .ag rfl).1 rfl)⟩
      · rw [if_neg hag, if_neg hag]
        exact ⟨false, pai, pg, rfl, fun _ type htype => absurd htype (by simp),
          fun _ => ⟨fun h => absurd h (by decide), fun _ => rfl, fun _ => rfl⟩⟩
  · have hwg : ¬ (pai.num gangPai = 1 ∧ pg.lookup gangPai = some .peng) := fun h => by omega
    have hag : ¬ pai.num gangPai > 3 := fun h => by omega
    rw [if_neg hpos, if_neg hwg, if_neg hag]
    exact ⟨false, pai, pg, rfl, fun _ type htype => absurd htype (by simp),
      fun _ => ⟨fun h => absurd h (by decide), fun _ => rfl, fun _ => rfl⟩⟩

def sevenHand : PaiMap := [⟨16, 1⟩, ⟨18, 4⟩, ⟨19, 2⟩].toAList

def sevenMelds : PgMap := [⟨22, .peng⟩, ⟨25, .peng⟩].toAList

theorem checkXueliuHuGang_iff_seven :
    ∃ tingMap b pai' pg', getTingMapInfo Port.erRen13 sevenHand sevenMelds none =
        some (some tingMap) ∧
      checkXueliuHuGang Port.erRen13 (sevenHand.add 14) sevenMelds none 18 tingMap =
        some (b, pai', pg') ∧
      ((b = true → ∃ type ∈ gangType (sevenHand.add 14) sevenMelds 18,
          waitsAfter Port.erRen13 (sevenHand.add 14) sevenMelds none 18 type =
            {s | s ∈ tingMap.byPai}) ∧
        (∀ s, pai'.lookup s = (sevenHand.add 14).lookup s) ∧
          (∀ s, pg'.lookup s = sevenMelds.lookup s) ↔
      ∀ type ∈ gangType (sevenHand.add 14) sevenMelds 18, (type = .ag → 18 ∉ sevenMelds) ∧
        ((waitsAfter Port.erRen13 (sevenHand.add 14) sevenMelds none 18 type).ncard =
            {s | s ∈ tingMap.byPai}.ncard →
          waitsAfter Port.erRen13 (sevenHand.add 14) sevenMelds none 18 type =
            {s | s ∈ tingMap.byPai})) := by
  have hting : ((getTingMapInfo Port.erRen13 sevenHand sevenMelds none).join).isSome := by
    decide +kernel
  obtain ⟨tingMap, htingMap⟩ := Option.isSome_iff_exists.mp hting
  have hbefore := Option.join_eq_some_iff.mp htingMap
  obtain ⟨b, pai', pg', h⟩ := checkXueliuHuGang_iff Port.erRen13 (sevenHand.add 14) sevenMelds
    (by decide) (by decide) none 18 tingMap ⟨_, _, hbefore⟩
  exact ⟨tingMap, b, pai', pg', hbefore, h⟩

/-- The kong of eights is allowed, and the hand that waited for a seven then waits for a five. -/
theorem hu_gang_changes_wait :
    ∃ tingMap pai' pg', getTingMapInfo Port.erRen13 sevenHand sevenMelds none =
        some (some tingMap) ∧
      checkXueliuHuGang Port.erRen13 (sevenHand.add 14) sevenMelds none 18 tingMap =
        some (true, pai', pg') ∧
      tingMap.byPai.keys = [17] ∧
      15 ∈ waitsAfter Port.erRen13 (sevenHand.add 14) sevenMelds none 18 .ag := by
  have hcheck : ((getTingMapInfo Port.erRen13 sevenHand sevenMelds none).join.map fun tingMap =>
      (tingMap.byPai.keys, (checkXueliuHuGang Port.erRen13 (sevenHand.add 14) sevenMelds none 18
        tingMap).map Prod.fst)) = some ([17], some true) := by
    decide +kernel
  have hafter : (getTingInfo Port.erRen13 ((sevenHand.add 14).erase 18)
      (sevenMelds.insert 18 .ag) none).map (fun l => (l.getD []).map TingInfo.tingPai) =
        some [15] := by
    decide +kernel
  obtain ⟨tingMap, htingMap, hkeys⟩ := Option.map_eq_some_iff.mp hcheck
  obtain ⟨hkeys, hfst⟩ := Prod.mk.inj hkeys
  obtain ⟨⟨b, pai', pg'⟩, hb, rfl⟩ := Option.map_eq_some_iff.mp hfst
  obtain ⟨list, hlist, htiles⟩ := Option.map_eq_some_iff.mp hafter
  have hpai : PaiMap.Tiles ((sevenHand.add 14).erase 18) := by decide
  have hpg : PgMap.Tiles (sevenMelds.insert 18 .ag) := by decide
  obtain ⟨list', hlist', hwaits⟩ := getTingInfo_waitsFor Port.erRen13 hpai hpg none
  obtain rfl := Option.some.inj (hlist.symm.trans hlist')
  refine ⟨tingMap, pai', pg', Option.join_eq_some_iff.mp htingMap, hb, hkeys,
    (hwaits 15).mp (List.mem_map.mp ?_)⟩
  rw [htiles]
  exact List.mem_singleton.mpr rfl

end JyQipai.Mj.Algorithm
