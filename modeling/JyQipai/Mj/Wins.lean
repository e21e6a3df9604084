import JyQipai.Mj.Port

/-!
# The wins of the port

The counts, the checks and the fans of the port, each against its counterpart in
Lua, and `get_hupai_info` put together from them.
-/

namespace JyQipai.Mj.Port

open JyQipai.Lib

variable {pai : Algorithm.PaiMap} {pai' : Majiang.PaiMap} {pg : Algorithm.PgMap}
  {pg' : Majiang.PgMap} {kaiguan : Algorithm.Kaiguan} {kaiguan' : Majiang.Kaiguan}
  {multi : Algorithm.MultiTypes} {multi' : Majiang.MultiTypes}
  {list : HashTable Nat PaiItem} {list' : List PaiItem} {huaSe : HashTable Nat Nat}
  {huaSe' : OrderedMap Nat Nat}

section Walk

variable {α T : Type} {f : Nat × T → α → Nat × T} (used : α → Bool) (w : α → Nat)
  (ins : T → α → T)

theorem walk_count (hf : ∀ st e, f st e = if used e then (st.1 + w e, ins st.2 e) else st)
    (l : List α) (st : Nat × T) :
    (l.foldl f st).1 = st.1 + (l.map fun e => if used e then w e else 0).sum := by
  induction l generalizing st with
  | nil => rfl
  | cons e l ih =>
      rw [List.foldl_cons, ih, hf, List.map_cons, List.sum_cons]
      split <;> simp [Nat.add_assoc]

theorem walk_note (key : α → Nat) (look : T → Nat → Option Nat)
    (hf : ∀ st e, f st e = if used e then (st.1 + w e, ins st.2 e) else st)
    (hins : ∀ h e c, look (ins h e) c = if key e = c then some 1 else look h c)
    (l : List α) (st : Nat × T) (c : Nat) :
    look (l.foldl f st).2 c =
      if (l.any fun e => used e && key e = c) then some 1 else look st.2 c := by
  induction l generalizing st with
  | nil => rfl
  | cons e l ih =>
      rw [List.foldl_cons, ih, hf, List.any_cons]
      by_cases hu : used e
      · by_cases hk : key e = c
        · simp [hu, hk, hins]
        · simp [hu, hk, hins]
      · simp [hu]

end Walk

theorem lookup_insert_one (h : HashTable Nat Nat) (k c : Nat) :
    (h.insert k 1).lookup c = if k = c then some 1 else h.lookup c := by
  by_cases hk : k = c
  · subst hk
    simp
  · rw [AList.lookup_insert_ne (Ne.symm hk), if_neg hk]

theorem getElem?_insert_one (h : OrderedMap Nat Nat) (k c : Nat) :
    (h.insert k 1)[c]? = if k = c then some 1 else h[c]? := by
  rw [Std.TreeMap.getElem?_insert]
  simp

theorem walk_agrees {V : Type} {t : HashTable Nat V} {m : OrderedMap Nat V} (ht : Same t m)
    (hhua : Same huaSe huaSe') (used : Nat → V → Bool) (w : Nat → V → Nat)
    {f : Nat × HashTable Nat Nat → (Sigma fun _ : Nat => V) → Nat × HashTable Nat Nat}
    {f' : Nat × OrderedMap Nat Nat → Nat × V → Nat × OrderedMap Nat Nat}
    (hf : ∀ st e, f st e =
      if used e.1 e.2 then (st.1 + w e.1 e.2, st.2.insert (e.1 / 10) 1) else st)
    (hf' : ∀ st e, f' st e =
      if used e.1 e.2 then (st.1 + w e.1 e.2, st.2.insert (e.1 / 10) 1) else st) :
    (m.toList.foldl f' (0, huaSe')).1 = (t.entries.foldl f (0, huaSe)).1 ∧
      Same (t.entries.foldl f (0, huaSe)).2 (m.toList.foldl f' (0, huaSe')).2 := by
  constructor
  · rw [walk_count (fun e => used e.1 e.2) (fun e => w e.1 e.2)
        (fun h e => h.insert (e.1 / 10) 1) hf',
      walk_count (fun e => used e.1 e.2) (fun e => w e.1 e.2)
        (fun h e => h.insert (e.1 / 10) 1) hf]
    exact congrArg (0 + ·) (ht.sum fun k v => rfl)
  · intro c
    rw [walk_note (fun e => used e.1 e.2) (fun e => w e.1 e.2)
        (fun h e => h.insert (e.1 / 10) 1) (fun e => e.1 / 10)
        (fun h c => AList.lookup c h) hf (fun h e c => lookup_insert_one h _ c),
      walk_note (fun e => used e.1 e.2) (fun e => w e.1 e.2)
        (fun h e => h.insert (e.1 / 10) 1) (fun e => e.1 / 10)
        (fun h c => h[c]?) hf' (fun h e c => getElem?_insert_one h _ c)]
    have hany : (m.toList.any fun e => used e.1 e.2 && decide (e.1 / 10 = c)) =
        t.entries.any fun e => used e.1 e.2 && decide (e.1 / 10 = c) := ht.any fun k v => rfl
    rw [hany, hhua c]

theorem tongjiPaiInfo_agrees (hpai : Same pai pai') (hhua : Same huaSe huaSe') :
    (Majiang.tongjiPaiInfo pai' huaSe').1 = (Algorithm.tongjiPaiInfo pai huaSe).1 ∧
      Same (Algorithm.tongjiPaiInfo pai huaSe).2 (Majiang.tongjiPaiInfo pai' huaSe').2 :=
  walk_agrees hpai hhua (fun _ v => 0 < v) (fun _ v => v) (by simp) (by simp)

theorem tongjiPenggangInfo_agrees (hpg : Same pg pg') (hhua : Same huaSe huaSe') :
    (Majiang.tongjiPenggangInfo pg' huaSe').1 = (Algorithm.tongjiPenggangInfo pg huaSe).1 ∧
      Same (Algorithm.tongjiPenggangInfo pg huaSe).2
        (Majiang.tongjiPenggangInfo pg' huaSe').2 :=
  walk_agrees hpg hhua (fun _ _ => true) (fun _ _ => 3) (by simp) (by simp)

theorem tongjiPaiInfo_count (pai : Algorithm.PaiMap) (huaSe : HashTable Nat Nat) :
    (Algorithm.tongjiPaiInfo pai huaSe).1 = (pai.entries.map (·.2)).sum := by
  unfold Algorithm.tongjiPaiInfo
  rw [walk_count (fun e => 0 < e.2) (fun e => e.2) (fun h e => h.insert (e.1 / 10) 1)
    (by simp), Nat.zero_add]
  congr 2
  funext e
  by_cases h : 0 < e.2
  · simp [h]
  · simp [Nat.eq_zero_of_not_pos h]

theorem sum_dlookup_le (l : List (Sigma fun _ : Nat => Nat)) (n : Nat) :
    ∑ s ∈ Finset.range n, (l.dlookup s).getD 0 ≤ (l.map (·.2)).sum := by
  induction l with
  | nil => simp
  | cons e l ih =>
      have hle : ∀ s, ((e :: l).dlookup s).getD 0 ≤
          (if e.1 = s then e.2 else 0) + (l.dlookup s).getD 0 := by
        intro s
        by_cases hs : e.1 = s
        · subst hs
          have h1 : (e :: l).dlookup e.1 = some e.2 := List.dlookup_cons_eq l e.1 e.2
          simp [h1]
        · rw [List.dlookup_cons_ne _ _ (Ne.symm hs), if_neg hs, Nat.zero_add]
      have hone : ∑ s ∈ Finset.range n, (if e.1 = s then e.2 else 0) ≤ e.2 := by
        rw [Finset.sum_ite_eq]
        split <;> omega
      calc ∑ s ∈ Finset.range n, ((e :: l).dlookup s).getD 0
          ≤ ∑ s ∈ Finset.range n,
              ((if e.1 = s then e.2 else 0) + (l.dlookup s).getD 0) :=
            Finset.sum_le_sum fun s _ => hle s
        _ ≤ ((e :: l).map (·.2)).sum := by
            rw [Finset.sum_add_distrib, List.map_cons, List.sum_cons]
            omega

theorem search_agrees (hpai : Same pai pai') (huaSe : HashTable Nat Nat) :
    ∃ a b,
      let count := (Algorithm.tongjiPaiInfo pai huaSe).1
      Algorithm.computeNorHupaiInfo (count + 1) 11 count 0 1 ⟨pai, ∅, []⟩ = some a ∧
        Majiang.computeNorHupaiInfo (count + 1) 11 count 0 0 ⟨pai', [], []⟩ = some b ∧
        List.Forall₂ SameData a.info b.info := by
  have hstart : Sim (fun s => (pai.lookup s).getD 0) 0 ⟨pai, ∅, []⟩ ⟨pai', [], []⟩ :=
    { lua := fun s => rfl
      cpp := fun s => hpai.getD s 0
      items := fun i => by simp
      length := Nat.le_refl 0
      info := .nil }
  have htiles := sum_dlookup_le pai.entries 40
  rw [← tongjiPaiInfo_count pai huaSe] at htiles
  obtain ⟨a, b, ha, hb, hab⟩ := computeNorHupaiInfo_agrees _ _ 0 11 _ 0 0 _ _
    (Nat.lt_succ_of_le htiles) (Nat.le_refl 0) hstart
  exact ⟨a, b, ha, hb, hab.info⟩

/-! ## The checks -/

theorem checkKg_eq (hk : Same kaiguan kaiguan') (fan : Fan) :
    Majiang.checkKg kaiguan' fan = Algorithm.kaiguanOn kaiguan fan := by
  rw [Majiang.checkKg, hk fan, Algorithm.kaiguanOn]
  cases kaiguan.lookup fan <;> rfl

theorem getGengNum_eq (hpai : Same pai pai') (hpg : Same pg pg') :
    Majiang.getGengNum pai' pg' = Algorithm.getGengNum pai pg := by
  unfold Majiang.getGengNum Algorithm.getGengNum
  congr 2
  · refine hpai.countP fun k v => ?_
    rw [hpg.contains, hpg k, decide_eq_decide]
    cases pg.lookup k <;> simp
  · exact hpg.countP fun k v => rfl

theorem check7dHupaiInfo_eq (hpai : Same pai pai') (hk : Same kaiguan kaiguan')
    (allNum maxShouPaiNum : Int) :
    Majiang.check7dHupaiInfo pai' allNum kaiguan' maxShouPaiNum =
      Algorithm.check7dHupaiInfo pai allNum kaiguan maxShouPaiNum := by
  unfold Majiang.check7dHupaiInfo Algorithm.check7dHupaiInfo
  rw [checkKg_eq hk]
  congr 1
  exact hpai.all fun k v => rfl

theorem checkIsDaduizi_eq (hlist : Items list list') (hk : Same kaiguan kaiguan') :
    Majiang.checkIsDaduizi list' kaiguan' = Algorithm.checkIsDaduizi list kaiguan := by
  unfold Majiang.checkIsDaduizi Algorithm.checkIsDaduizi
  rw [checkKg_eq hk, HashTable.ipairs_eq hlist]
  congr 2
  funext v
  rw [decide_eq_decide]
  omega

theorem checkIsYaojiu_eq (hlist : Items list list') (hpg : Same pg pg')
    (hk : Same kaiguan kaiguan') :
    Majiang.checkIsYaojiu list' pg' kaiguan' = Algorithm.checkIsYaojiu list pg kaiguan := by
  unfold Majiang.checkIsYaojiu Algorithm.checkIsYaojiu
  rw [checkKg_eq hk, HashTable.ipairs_eq hlist]
  refine congrArg₂ and (congrArg (and _) ?_) ?_
  · congr 1
    funext v
    split <;> rw [decide_eq_decide] <;> omega
  · refine hpg.all fun k v => ?_
    rw [decide_eq_decide]
    dsimp only
    omega

theorem checkIsJiangdui_eq (hlist : Items list list') (hpai : Same pai pai')
    (hpg : Same pg pg') (hk : Same kaiguan kaiguan') :
    Majiang.checkIsJiangdui list' pai' pg' kaiguan' =
      Algorithm.checkIsJiangdui list pai pg kaiguan := by
  unfold Majiang.checkIsJiangdui Algorithm.checkIsJiangdui
  rw [checkKg_eq hk, HashTable.ipairs_eq hlist]
  refine congrArg₂ and (congrArg₂ and (congrArg (and _) ?_) ?_) ?_
  · congr 1
    funext v
    rw [decide_eq_decide]
    omega
  · refine hpai.all fun k v => ?_
    simp only [Algorithm.isJiang, decide_eq_true_eq, decide_eq_decide]
    omega
  · refine hpg.all fun k v => ?_
    simp only [Algorithm.isJiang, decide_eq_decide]
    omega

theorem checkIsMenqing_eq (hpg : Same pg pg') (hk : Same kaiguan kaiguan') :
    Majiang.checkIsMenqing pg' kaiguan' = Algorithm.checkIsMenqing pg kaiguan := by
  unfold Majiang.checkIsMenqing Algorithm.checkIsMenqing
  rw [checkKg_eq hk]
  congr 1
  exact hpg.all fun k v => by simp

theorem checkIsZhongzhang_eq (hpai : Same pai pai') (hpg : Same pg pg')
    (hk : Same kaiguan kaiguan') :
    Majiang.checkIsZhongzhang pai' pg' kaiguan' =
      Algorithm.checkIsZhongzhang pai pg kaiguan := by
  unfold Majiang.checkIsZhongzhang Algorithm.checkIsZhongzhang
  rw [checkKg_eq hk]
  refine congrArg₂ and (congrArg (and _) ?_) ?_
  · refine hpai.all fun k v => ?_
    rw [decide_eq_decide]
    dsimp only
    omega
  · exact hpg.all fun k v => rfl

theorem countTwo_eq (l : List (Nat × Nat)) {count : Nat} :
    Majiang.countTwo l count = decide (count + (l.map (·.2)).sum = 2) := by
  induction l generalizing count with
  | nil => rfl
  | cons e l ih =>
      rw [Majiang.countTwo, ih, List.map_cons, List.sum_cons]
      split
      · rw [eq_comm, decide_eq_false_iff_not]
        omega
      · rw [Nat.add_assoc]

theorem checkIsJingoudiao_eq (hpai : Same pai pai') (hk : Same kaiguan kaiguan') :
    Majiang.checkIsJingoudiao pai' kaiguan' = Algorithm.checkIsJingoudiao pai kaiguan := by
  unfold Majiang.checkIsJingoudiao Algorithm.checkIsJingoudiao
  have hsum : (pai'.toList.map (·.2)).sum = (pai.entries.map (·.2)).sum :=
    hpai.sum fun k v => rfl
  rw [checkKg_eq hk, countTwo_eq, Nat.zero_add, hsum]

/-! ## The kind of the win -/

theorem raiseType_eq (hpai : Same pai pai') (hpg : Same pg pg') (hk : Same kaiguan kaiguan')
    (type : Nat) {u : HuPaiData (HashTable Nat PaiItem)} {v : HuPaiData (List PaiItem)}
    (huv : SameData u v) :
    Majiang.raiseType pai' pg' kaiguan' type v = Algorithm.raiseType pai pg kaiguan type u := by
  unfold Majiang.raiseType Algorithm.raiseType
  rw [checkIsDaduizi_eq huv hk, checkIsJiangdui_eq huv hpai hpg hk,
    checkIsYaojiu_eq huv hpg hk]

theorem foldl_raiseType_eq (hpai : Same pai pai') (hpg : Same pg pg')
    (hk : Same kaiguan kaiguan') (type : Nat)
    {info : List (HuPaiData (HashTable Nat PaiItem))} {info' : List (HuPaiData (List PaiItem))}
    (hinfo : List.Forall₂ SameData info info') :
    info'.foldl (Majiang.raiseType pai' pg' kaiguan') type =
      info.foldl (Algorithm.raiseType pai pg kaiguan) type := by
  induction hinfo generalizing type with
  | nil => rfl
  | cons huv _ ih => rw [List.foldl_cons, List.foldl_cons, raiseType_eq hpai hpg hk type huv, ih]

theorem le_raiseType (type : Nat) (u : HuPaiData (HashTable Nat PaiItem)) :
    type ≤ Algorithm.raiseType pai pg kaiguan type u := by
  unfold Algorithm.raiseType
  dsimp only
  split_ifs <;> omega

theorem le_foldl_raiseType (pai : Algorithm.PaiMap) (pg : Algorithm.PgMap)
    (kaiguan : Algorithm.Kaiguan) (info : List (HuPaiData (HashTable Nat PaiItem)))
    (type : Nat) : type ≤ info.foldl (Algorithm.raiseType pai pg kaiguan) type := by
  induction info generalizing type with
  | nil => exact Nat.le_refl type
  | cons u info ih => exact (le_raiseType type u).trans (ih _)

def SameType (type : Option Nat) (type' : Nat) : Prop :=
  type' = type.getD 0 ∧ type ≠ some 0

theorem SameType.seven {type : Option Nat} {type' : Nat} (h : SameType type type') (c : Bool) :
    SameType (if c = true ∧ ∀ t ∈ type, 3 > t then some 3 else type)
      (if c = true ∧ (type' = 0 ∨ 3 > type') then 3 else type') := by
  obtain ⟨rfl, hne⟩ := h
  have hiff : (∀ t ∈ type, 3 > t) ↔ type.getD 0 = 0 ∨ 3 > type.getD 0 := by
    cases type with
    | none => simp
    | some t => simp
                omega
  by_cases hc : c = true ∧ ∀ t ∈ type, 3 > t
  · rw [if_pos hc, if_pos ⟨hc.1, hiff.mp hc.2⟩]
    exact ⟨rfl, by simp⟩
  · rw [if_neg hc, if_neg fun h => hc ⟨h.1, hiff.mpr h.2⟩]
    exact ⟨rfl, hne⟩

theorem hupaiType_agrees (hpai : Same pai pai') (hpg : Same pg pg')
    (hk : Same kaiguan kaiguan') (allNum maxShouPaiNum : Int)
    {info : List (HuPaiData (HashTable Nat PaiItem))} {info' : List (HuPaiData (List PaiItem))}
    (hinfo : List.Forall₂ SameData info info') :
    SameType (Algorithm.hupaiType pai pg allNum kaiguan maxShouPaiNum info)
      (Majiang.hupaiType pai' pg' allNum kaiguan' maxShouPaiNum info') := by
  unfold Algorithm.hupaiType Majiang.hupaiType
  rw [check7dHupaiInfo_eq hpai hk, ← hinfo.length_eq, foldl_raiseType_eq hpai hpg hk 1 hinfo]
  refine SameType.seven ?_ _
  have hpos := le_foldl_raiseType pai pg kaiguan info 1
  split
  · refine ⟨rfl, fun h => ?_⟩
    have := Option.some.inj h
    omega
  · exact ⟨rfl, by simp⟩

/-! ## The fans -/

structure SameFans (multi : Algorithm.MultiTypes) (res : HashTable Fan Int) (gengNum : Int)
    (f : Majiang.Fans) : Prop where
  multi : Same multi f.multiTypes
  res : Same res f.res
  geng : f.gengNum = gengNum

section Fans

variable {res : HashTable Fan Int} {gengNum : Int} {f : Majiang.Fans}
  (hdef : ∀ fan, (multi.lookup fan).isSome)

include hdef

theorem give_agrees (h : SameFans multi res gengNum f) (fan : Fan) :
    SameFans multi (Algorithm.setField res fan (multi.lookup fan)) gengNum (f.give fan) := by
  obtain ⟨v, hv⟩ := Option.isSome_iff_exists.mp (hdef fan)
  have hhas : f.multiTypes.contains fan = true := by rw [h.multi.contains, hv]; rfl
  refine ⟨?_, ?_, h.geng⟩
  · rw [Majiang.Fans.give, if_pos hhas]
    exact h.multi
  · rw [hv, Majiang.Fans.give, if_pos hhas]
    dsimp only
    rw [h.multi.getD, hv]
    exact h.res.insert fan v

theorem fanIf_agrees (h : SameFans multi res gengNum f) {c c' : Bool} (hc : c' = c)
    (fan : Fan) :
    SameFans multi (Algorithm.fanIf multi c fan res) gengNum (f.giveIf c' fan) := by
  subst hc
  unfold Algorithm.fanIf Majiang.Fans.giveIf
  split
  · exact give_agrees hdef h fan
  · exact h

theorem typeFan_agrees (h : SameFans multi ∅ gengNum f) (type : Nat) :
    SameFans multi (Algorithm.typeFan multi type gengNum).1
      (Algorithm.typeFan multi type gengNum).2 (f.typeFan type) := by
  unfold Algorithm.typeFan Majiang.Fans.typeFan
  have hgive := fun fan => give_agrees hdef h fan
  rw [h.geng]
  split_ifs
  · have hone : SameFans multi ∅ (gengNum - 1) { f with gengNum := gengNum - 1 } :=
      ⟨h.multi, h.res, rfl⟩
    exact give_agrees hdef hone .longQiDui
  · exact hgive .qiDui
  · exact hgive .daDuiZi
  · exact hgive .jiangDui
  · exact hgive .yaoJiu
  · exact h

omit hdef in
theorem daiGeng_agrees (h : SameFans multi res gengNum f) :
    SameFans multi (if gengNum > 0 then res.insert .daiGeng gengNum else res) gengNum
      f.daiGeng := by
  unfold Majiang.Fans.daiGeng
  rw [h.geng]
  split
  · exact ⟨h.multi, h.res.insert _ _, rfl⟩
  · exact h

theorem fans_agrees (hpai : Same pai pai') (hpg : Same pg pg') (hk : Same kaiguan kaiguan')
    (hmulti : Same multi multi') (huaSeCount type : Nat) :
    let info := Algorithm.fans pai pg huaSeCount kaiguan multi type
    SameFans multi info.huTypeInfo info.gengNum
      (Majiang.fans pai' pg' huaSeCount kaiguan' multi' type ∅) := by
  have hstart : SameFans multi ∅ (Algorithm.getGengNum pai pg)
      ⟨multi', ∅, Majiang.getGengNum pai' pg'⟩ :=
    ⟨hmulti, .empty, getGengNum_eq hpai hpg⟩
  have hgeng := daiGeng_agrees (typeFan_agrees hdef hstart type)
  have hyise := fanIf_agrees hdef hgeng
    (congrArg (decide (huaSeCount = 1) && ·) (checkKg_eq hk .qingYiSe)) .qingYiSe
  have hzhang := fanIf_agrees hdef hyise (checkIsZhongzhang_eq hpai hpg hk) .zhongZhang
  have hqing := fanIf_agrees hdef hzhang (checkIsMenqing_eq hpg hk) .menQing
  exact fanIf_agrees hdef hqing (checkIsJingoudiao_eq hpai hk) .jinGouDiao

end Fans

/-! ## The results -/

/-- The port returns `true` where Lua has a result, and then the two results hold
the same. -/
def SameWin (r : Option (HuPaiInfo (HashTable Fan Int))) (o : Majiang.Outcome) : Prop :=
  (o.ret = true ↔ r.isSome) ∧
    ∀ info ∈ r, o.out.mul = info.mul ∧ o.out.gengNum = info.gengNum ∧
      ∀ fan : Fan, o.out.huTypeInfo[fan]? = info.huTypeInfo.lookup fan

theorem computeHupaiInfo_agrees (hpai : Same pai pai') (hpg : Same pg pg')
    (hk : Same kaiguan kaiguan') (hmulti : Same multi multi')
    (hdef : ∀ fan, (multi.lookup fan).isSome) (huaSe : HashTable Nat Nat) (huaSeCount : Nat)
    (maxShouPaiNum mul gengNum : Int) :
    let count := (Algorithm.tongjiPaiInfo pai huaSe).1
    ∃ r o,
      Algorithm.computeHupaiInfo pai pg count huaSeCount kaiguan multi maxShouPaiNum =
          some r ∧
        Majiang.computeHupaiInfo pai' pg' count huaSeCount kaiguan' multi' maxShouPaiNum
          ⟨∅, mul, gengNum⟩ = some o ∧
        SameWin r o := by
  intro count
  obtain ⟨a, b, ha, hb, hinfo⟩ := search_agrees hpai huaSe
  unfold Algorithm.computeHupaiInfo Majiang.computeHupaiInfo
  rw [ha, hb]
  simp only [Option.bind_eq_bind, Option.bind_some, Option.pure_def]
  obtain ⟨htype, hne⟩ := hupaiType_agrees hpai hpg hk count maxShouPaiNum hinfo
  rw [htype]
  cases htypeLua : Algorithm.hupaiType pai pg count kaiguan maxShouPaiNum a.info with
  | none =>
      refine ⟨_, _, rfl, rfl, ?_, ?_⟩
      · simp
      · simp
  | some type =>
      have hwins : (some type).getD 0 ≠ 0 := fun h => hne (htypeLua.trans (congrArg some h))
      rw [if_pos hwins]
      refine ⟨_, _, rfl, rfl, by simp, ?_⟩
      rintro info ⟨⟩
      obtain ⟨-, hres, hgeng⟩ := fans_agrees hdef hpai hpg hk hmulti huaSeCount type
      exact ⟨hres.sum fun fan v => rfl, hgeng, hres⟩

theorem que_iff {mustQue : Nat} (h : 1 ≤ mustQue) (n : Nat → Nat) :
    (mustQue ≠ 0 ∧ n mustQue ≠ 0 ∧ n mustQue > 0) ↔ ∃ que ∈ some mustQue, n que > 0 := by
  simp only [Option.mem_some, exists_eq_left']
  omega

/-- The port computes the same wins. -/
theorem getHupaiInfo_agrees (self : Algorithm) (hpai : Same pai pai') (hpg : Same pg pg')
    (hk : Same self.kaiguan kaiguan') (hmulti : Same self.multiTypes multi')
    (hdef : ∀ fan, (self.multiTypes.lookup fan).isSome) {mustQue : Nat}
    (hque : 1 ≤ mustQue ∧ mustQue ≤ 3) (mul gengNum : Int) :
    ∃ r o,
      self.getHupaiInfo pai pg (some mustQue) = some r ∧
        Majiang.getHupaiInfo pai' pg' mustQue kaiguan' multi' self.maxShouPaiNum
          ⟨∅, mul, gengNum⟩ = some o ∧
        SameWin r o := by
  unfold Algorithm.getHupaiInfo Majiang.getHupaiInfo
  have hhua : Same (((∅ : HashTable Nat Nat).insert 1 0 |>.insert 2 0).insert 3 0)
      (((∅ : OrderedMap Nat Nat).insert 1 0 |>.insert 2 0).insert 3 0) :=
    ((Same.empty.insert 1 0).insert 2 0).insert 3 0
  obtain ⟨hcount1, hhua1⟩ := tongjiPaiInfo_agrees hpai hhua
  obtain ⟨hcount2, hhua2⟩ := tongjiPenggangInfo_agrees hpg hhua1
  have hof : ∀ c, Majiang.huaSeOf _ c = Algorithm.huaSeOf _ c := fun c => hhua2.getD c 0
  have hnone : SameWin none ⟨false, ⟨∅, mul, gengNum⟩, multi'⟩ := ⟨by simp, by simp⟩
  dsimp only
  rw [hcount1, hcount2, hof, hof, hof, hof]
  generalize Algorithm.huaSeOf _ = n
  split
  · exact ⟨_, _, rfl, rfl, hnone⟩
  · by_cases hhas : ∃ que ∈ some mustQue, n que > 0
    · rw [if_pos hhas, if_pos ((que_iff hque.1 n).mpr hhas)]
      exact ⟨_, _, rfl, rfl, hnone⟩
    · rw [if_neg hhas, if_neg (mt (que_iff hque.1 n).mp hhas)]
      exact computeHupaiInfo_agrees hpai hpg hk hmulti hdef _ _ _ mul gengNum

def erRen13 : Algorithm where
  kaiguan := [⟨.qingYiSe, true⟩, ⟨.daDuiZi, true⟩, ⟨.qiDui, true⟩, ⟨.longQiDui, true⟩,
    ⟨.jiangDui, false⟩, ⟨.menQing, false⟩, ⟨.zhongZhang, false⟩, ⟨.jinGouDiao, true⟩,
    ⟨.yaoJiu, false⟩].toAList
  multiTypes := [⟨.qingYiSe, 2⟩, ⟨.daDuiZi, 1⟩, ⟨.qiDui, 2⟩, ⟨.longQiDui, 3⟩, ⟨.daiGeng, 1⟩,
    ⟨.jiangDui, 3⟩, ⟨.menQing, 1⟩, ⟨.zhongZhang, 1⟩, ⟨.jinGouDiao, 1⟩, ⟨.yaoJiu, 3⟩].toAList
  maxShouPaiNum := 14

def flushHand : Algorithm.PaiMap :=
  [⟨17, 1⟩, ⟨12, 4⟩, ⟨13, 1⟩, ⟨18, 2⟩, ⟨14, 1⟩, ⟨16, 1⟩, ⟨15, 1⟩].toAList

def flushKong : Algorithm.PgMap := [⟨11, .ag⟩].toAList

theorem getHupaiInfo_agrees_flush :
    ∃ r o,
      erRen13.getHupaiInfo flushHand flushKong (some 3) = some r ∧
        Majiang.getHupaiInfo (ofTable flushHand) (ofTable flushKong) 3
          (ofTable erRen13.kaiguan) (ofTable erRen13.multiTypes) 14 ⟨∅, 0, 0⟩ = some o ∧
        SameWin r o :=
  getHupaiInfo_agrees erRen13 (same_ofTable _) (same_ofTable _) (same_ofTable _)
    (same_ofTable _) (fun fan => by cases fan <;> rfl) ⟨by decide, by decide⟩ 0 0

end JyQipai.Mj.Port
