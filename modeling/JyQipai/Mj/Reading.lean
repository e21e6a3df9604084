import JyQipai.Mj.Layout
import JyQipai.Mj.Wins

/-!
# The best reading of a hand

A winning hand can be read in several ways.  `compute_hupai_info` ranks the kinds of readings and
takes the highest; the ranks agree with the fans, since a hand of seven pairs with roots is worth
a plain one with two fans and all its roots.
-/

namespace JyQipai.Mj.Algorithm

open JyQipai.Lib

/-- `MULTI_TYPES`; of the fans those that `compute_hupai_info` gives. -/
def getDefaultMulti : MultiTypes :=
  [⟨.qingYiSe, 2⟩, ⟨.daDuiZi, 1⟩, ⟨.qiDui, 2⟩, ⟨.longQiDui, 3⟩, ⟨.daiGeng, 1⟩, ⟨.jiangDui, 3⟩,
    ⟨.menQing, 1⟩, ⟨.zhongZhang, 1⟩, ⟨.jinGouDiao, 1⟩, ⟨.yaoJiu, 2⟩].toAList

/-! ## What a hand can be read as -/

def PgMap.Tiles (pg : PgMap) : Prop := ∀ s ∈ pg.keys, s ∈ paiIds

instance (pg : PgMap) : Decidable pg.Tiles := inferInstanceAs (Decidable (∀ s ∈ _, _))

def Shown (pai : PaiMap) (pg : PgMap) (s : Nat) : Prop := pai.num s ≠ 0 ∨ s ∈ pg

instance (pai : PaiMap) (pg : PgMap) (s : Nat) : Decidable (Shown pai pg s) :=
  inferInstanceAs (Decidable (_ ∨ _))

def isYaojiu (pai : Nat) : Bool := pai % 10 = 1 ∨ pai % 10 = 9

inductive Kind where
  | plain
  | daDuiZi
  | yaoJiu
  | jiangDui

inductive Reading where
  | layout (l : List PaiItem) (kind : Kind)
  | qiDui

section

variable (kaiguan : Kaiguan) (pai : PaiMap) (pg : PgMap)

def Kind.Applies (l : List PaiItem) : Kind → Prop
  | plain => True
  | daDuiZi => kaiguanOn kaiguan .daDuiZi ∧ ∀ v ∈ l, v.type ≠ 3
  | yaoJiu => kaiguanOn kaiguan .yaoJiu ∧ (∀ v ∈ l, ∃ s ∈ v.tiles, isYaojiu s) ∧
      ∀ s ∈ paiIds, s ∈ pg → isYaojiu s
  | jiangDui => kaiguanOn kaiguan .jiangDui ∧ (∀ v ∈ l, v.type ≠ 3) ∧
      ∀ s ∈ paiIds, Shown pai pg s → isJiang s

/-- The hand has this reading, of `maxShouPaiNum` tiles. -/
def Reads (maxShouPaiNum : Int) : Reading → Prop
  | .layout l kind => Layout pai.num 1 l ∧ kind.Applies kaiguan pai pg l
  | .qiDui => kaiguanOn kaiguan .qiDui ∧ pai.count = maxShouPaiNum ∧
      ∀ s, pai.num s = 0 ∨ pai.num s = 2 ∨ pai.num s = 4

def Reading.fan (multi : MultiTypes) (roots : Int) : Reading → Int
  | .layout _ .plain => roots
  | .layout _ .daDuiZi => (multi.lookup .daDuiZi).getD 0 + roots
  | .layout _ .yaoJiu => (multi.lookup .yaoJiu).getD 0 + roots
  | .layout _ .jiangDui => (multi.lookup .jiangDui).getD 0 + roots
  | .qiDui =>
      if 0 < roots then (multi.lookup .longQiDui).getD 0 + (roots - 1)
      else (multi.lookup .qiDui).getD 0

/-- The fans that do not depend on the reading: one suit, no one and no nine, concealed melds
only, and a wait for the pair behind four melds. -/
def commonFan (multi : MultiTypes) : Int :=
  let fan (f : Fan) (c : Prop) [Decidable c] : Int :=
    if kaiguanOn kaiguan f ∧ c then (multi.lookup f).getD 0 else 0
  fan .qingYiSe (∀ s ∈ paiIds, ∀ t ∈ paiIds, Shown pai pg s → Shown pai pg t →
      flower s = flower t) +
    fan .zhongZhang (∀ s ∈ paiIds, Shown pai pg s → ¬ isYaojiu s) +
    fan .menQing (∀ s ∈ paiIds, ∀ type ∈ pg.lookup s, type = .ag) +
    fan .jinGouDiao (pai.count = 2)

end

/-! ## Suits -/

def huaSe (pai : PaiMap) (pg : PgMap) : HashTable Nat Nat :=
  let huaSe : HashTable Nat Nat := ((∅ : HashTable Nat Nat).insert 1 0 |>.insert 2 0).insert 3 0
  (tongjiPenggangInfo pg (tongjiPaiInfo pai huaSe).2).2

def huaSeCount (pai : PaiMap) (pg : PgMap) : Nat :=
  huaSeOf (huaSe pai pg) 1 + huaSeOf (huaSe pai pg) 2 + huaSeOf (huaSe pai pg) 3

variable {kaiguan : Kaiguan} {pai : PaiMap} {pg : PgMap}

theorem mem_entries_iff {V : Type} {t : HashTable Nat V} {e : Sigma fun _ : Nat => V} :
    e ∈ t.entries ↔ t.lookup e.1 = some e.2 :=
  AList.mem_lookup_iff.symm

theorem forall_entries_iff (hpai : pai.Tiles) {P : Nat → Prop} :
    (∀ e ∈ pai.entries, 0 < e.2 → P e.1) ↔ ∀ s ∈ paiIds, pai.num s ≠ 0 → P s := by
  constructor
  · intro h s _ hs
    cases hn : pai.lookup s with
    | none =>
        rw [PaiMap.num, hn] at hs
        exact absurd rfl hs
    | some n =>
        rw [PaiMap.num, hn] at hs
        exact h ⟨s, n⟩ (mem_entries_iff.mpr hn) (Nat.pos_of_ne_zero hs)
  · intro h e he hpos
    have hnum : pai.num e.1 = e.2 := by
      rw [PaiMap.num, mem_entries_iff.mp he]
      rfl
    exact h e.1 (hpai e.1 (List.mem_map_of_mem (f := Sigma.fst) he)) (by rw [hnum]; exact hpos.ne')

theorem forall_melds_iff (hpg : pg.Tiles) {P : Nat → PgType → Prop} :
    (∀ e ∈ pg.entries, P e.1 e.2) ↔ ∀ s ∈ paiIds, ∀ type ∈ pg.lookup s, P s type := by
  constructor
  · intro h s _ type htype
    exact h ⟨s, type⟩ (mem_entries_iff.mpr htype)
  · intro h e he
    exact h e.1 (hpg e.1 (List.mem_map_of_mem (f := Sigma.fst) he)) e.2 (mem_entries_iff.mp he)

theorem forall_meld_tiles_iff (hpg : pg.Tiles) {P : Nat → Prop} :
    (∀ e ∈ pg.entries, P e.1) ↔ ∀ s ∈ paiIds, s ∈ pg → P s := by
  rw [forall_melds_iff hpg (P := fun s _ => P s)]
  refine forall₂_congr fun s _ => ?_
  rw [← AList.lookup_isSome, Option.isSome_iff_exists]
  constructor
  · rintro h ⟨type, htype⟩
    exact h type htype
  · intro h type htype
    exact h ⟨type, htype⟩

theorem shown_of_entry {e : Sigma fun _ : Nat => Nat} (he : e ∈ pai.entries) (hpos : 0 < e.2) :
    Shown pai pg e.1 := by
  rw [Shown, PaiMap.num, mem_entries_iff.mp he]
  exact .inl hpos.ne'

theorem huaSeOf_huaSe (hpai : pai.Tiles) (hpg : pg.Tiles) (c : Nat) :
    huaSeOf (huaSe pai pg) c = if ∃ s ∈ paiIds, Shown pai pg s ∧ flower s = c then 1 else 0 := by
  have hstart : ((((∅ : HashTable Nat Nat).insert 1 0 |>.insert 2 0).insert 3 0).lookup c).getD 0 =
      0 := by
    by_cases hc : c = 1 ∨ c = 2 ∨ c = 3
    · rcases hc with rfl | rfl | rfl <;> rfl
    · rw [AList.lookup_insert_ne (by omega), AList.lookup_insert_ne (by omega),
        AList.lookup_insert_ne (by omega)]
      rfl
  have hnote : (huaSe pai pg).lookup c =
      if (pg.entries.any fun e => true && e.1 / 10 = c) then some 1
      else if (pai.entries.any fun e => decide (0 < e.2) && e.1 / 10 = c) then some 1
      else (((∅ : HashTable Nat Nat).insert 1 0 |>.insert 2 0).insert 3 0).lookup c := by
    unfold huaSe tongjiPenggangInfo tongjiPaiInfo
    dsimp only
    rw [Port.walk_note (fun _ => true) (fun _ => 3) (fun h e => h.insert (e.1 / 10) 1)
        (fun e => e.1 / 10) (fun h c => AList.lookup c h) (by simp)
        (fun h e c => Port.lookup_insert_one h _ c),
      Port.walk_note (fun e => 0 < e.2) (fun e => e.2) (fun h e => h.insert (e.1 / 10) 1)
        (fun e => e.1 / 10) (fun h c => AList.lookup c h) (by simp)
        (fun h e c => Port.lookup_insert_one h _ c)]
  have hiff : ((pg.entries.any fun e => true && e.1 / 10 = c) = true ∨
      (pai.entries.any fun e => decide (0 < e.2) && e.1 / 10 = c) = true) ↔
      ∃ s ∈ paiIds, Shown pai pg s ∧ flower s = c := by
    rw [List.any_eq_true, List.any_eq_true]
    constructor
    · rintro (⟨e, he, hsuit⟩ | ⟨e, he, hsuit⟩)
      · rw [Bool.true_and, decide_eq_true_eq] at hsuit
        have hkey := List.mem_map_of_mem (f := Sigma.fst) he
        exact ⟨e.1, hpg e.1 hkey, .inr (AList.mem_keys.mpr hkey), hsuit⟩
      · rw [Bool.and_eq_true, decide_eq_true_eq, decide_eq_true_eq] at hsuit
        exact ⟨e.1, hpai e.1 (List.mem_map_of_mem (f := Sigma.fst) he),
          shown_of_entry he hsuit.1, hsuit.2⟩
    · rintro ⟨s, hs, hshown | hmeld, hsuit⟩
      · right
        cases hn : pai.lookup s with
        | none =>
            rw [PaiMap.num, hn] at hshown
            exact absurd rfl hshown
        | some n =>
            rw [PaiMap.num, hn] at hshown
            refine ⟨⟨s, n⟩, mem_entries_iff.mpr hn, ?_⟩
            rw [Bool.and_eq_true, decide_eq_true_eq, decide_eq_true_eq]
            exact ⟨Nat.pos_of_ne_zero hshown, hsuit⟩
      · left
        obtain ⟨type, htype⟩ := Option.isSome_iff_exists.mp (AList.lookup_isSome.mpr hmeld)
        refine ⟨⟨s, type⟩, mem_entries_iff.mpr htype, ?_⟩
        rw [Bool.true_and, decide_eq_true_eq]
        exact hsuit
  rw [huaSeOf, hnote]
  by_cases h : ∃ s ∈ paiIds, Shown pai pg s ∧ flower s = c
  · rw [if_pos h]
    rcases hiff.mpr h with h | h
    · rw [if_pos h]
      rfl
    · rw [if_pos h, ite_self]
      rfl
  · rw [if_neg h, if_neg fun h' => h (hiff.mp (.inl h')), if_neg fun h' => h (hiff.mp (.inr h'))]
    exact hstart

theorem flower_of_mem_paiIds {s : Nat} (hs : s ∈ paiIds) :
    flower s = 1 ∨ flower s = 2 ∨ flower s = 3 := by
  revert s
  decide

theorem huaSeCount_eq_one_iff (hpai : pai.Tiles) (hpg : pg.Tiles)
    (hsome : ∃ s ∈ paiIds, Shown pai pg s) :
    huaSeCount pai pg = 1 ↔ ∀ s ∈ paiIds, ∀ t ∈ paiIds, Shown pai pg s → Shown pai pg t →
      flower s = flower t := by
  set used : Nat → Prop := fun c => ∃ s ∈ paiIds, Shown pai pg s ∧ flower s = c with hused
  have hsame : (∀ s ∈ paiIds, ∀ t ∈ paiIds, Shown pai pg s → Shown pai pg t →
      flower s = flower t) ↔ ∀ c d, used c → used d → c = d := by
    constructor
    · rintro h c d ⟨s, hs, hss, rfl⟩ ⟨t, ht, hts, rfl⟩
      exact h s hs t ht hss hts
    · intro h s hs t ht hss hts
      exact h _ _ ⟨s, hs, hss, rfl⟩ ⟨t, ht, hts, rfl⟩
  have hany : used 1 ∨ used 2 ∨ used 3 := by
    obtain ⟨s, hs, hss⟩ := hsome
    have hmem : used (flower s) := ⟨s, hs, hss, rfl⟩
    rcases flower_of_mem_paiIds hs with h | h | h <;> rw [h] at hmem
    · exact .inl hmem
    · exact .inr (.inl hmem)
    · exact .inr (.inr hmem)
  have hthree : ∀ c, used c → c = 1 ∨ c = 2 ∨ c = 3 := by
    rintro c ⟨s, hs, -, rfl⟩
    exact flower_of_mem_paiIds hs
  rw [hsame, huaSeCount, huaSeOf_huaSe hpai hpg, huaSeOf_huaSe hpai hpg,
    huaSeOf_huaSe hpai hpg]
  change (if used 1 then 1 else 0) + (if used 2 then 1 else 0) + (if used 3 then 1 else 0) = 1 ↔ _
  constructor
  · intro h c d hc hd
    rcases hthree c hc with rfl | rfl | rfl <;> rcases hthree d hd with rfl | rfl | rfl <;>
      first | rfl | (simp only [hc, hd, ↓reduceIte] at h; omega)
  · intro h
    have h12 : ¬(used 1 ∧ used 2) := fun hu => absurd (h 1 2 hu.1 hu.2) (by decide)
    have h13 : ¬(used 1 ∧ used 3) := fun hu => absurd (h 1 3 hu.1 hu.2) (by decide)
    have h23 : ¬(used 2 ∧ used 3) := fun hu => absurd (h 2 3 hu.1 hu.2) (by decide)
    rcases hany with h1 | h2 | h3
    · rw [if_pos h1, if_neg fun h => h12 ⟨h1, h⟩, if_neg fun h => h13 ⟨h1, h⟩]
    · rw [if_neg fun h => h12 ⟨h, h2⟩, if_pos h2, if_neg fun h => h23 ⟨h2, h⟩]
    · rw [if_neg fun h => h13 ⟨h, h3⟩, if_neg fun h => h23 ⟨h, h3⟩, if_pos h3]

/-! ## The kinds of a layout -/

def Kind.index : Kind → Nat
  | plain => 1
  | daDuiZi => 2
  | yaoJiu => 4
  | jiangDui => 5

def Reading.index : Reading → Nat
  | layout _ kind => kind.index
  | qiDui => 3

theorem mod_of_mem_paiIds {s : Nat} (hs : s ∈ paiIds) : 1 ≤ s % 10 ∧ s % 10 ≤ 9 := by
  revert s
  decide

theorem exists_yaojiu_iff {v : PaiItem} (hv : v.Good) (htiles : ∀ s ∈ v.tiles, s ∈ paiIds) :
    (∃ s ∈ v.tiles, isYaojiu s) ↔
      (if v.type = 3 then decide (v.paiType % 10 = 1 ∨ v.paiType % 10 = 7)
        else decide (v.paiType % 10 = 1 ∨ v.paiType % 10 = 9)) = true := by
  obtain ⟨type, s⟩ := v
  rcases hv with rfl | rfl | ⟨rfl, hsuit⟩
  · simp [PaiItem.tiles, isYaojiu]
  · simp [PaiItem.tiles, isYaojiu]
  · have hmod := fun t ht => mod_of_mem_paiIds (htiles t ht)
    change ∀ t ∈ [s, s + 1, s + 2], _ at hmod
    change (∃ t ∈ [s, s + 1, s + 2], isYaojiu t = true) ↔ _
    simp only [List.mem_cons, List.not_mem_nil, or_false, forall_eq_or_imp, forall_eq] at hmod
    simp only [List.mem_cons, List.not_mem_nil, or_false, exists_eq_or_imp, exists_eq_left,
      isYaojiu, ↓reduceIte, decide_eq_true_eq]
    omega

section Kinds

variable {list : HashTable Nat PaiItem} {l : List PaiItem}

theorem checkIsDaduizi_iff (kaiguan : Kaiguan) (pai : PaiMap) (pg : PgMap)
    (hl : ∀ v ∈ l, v.Good) (h : Holds list l) :
    checkIsDaduizi list kaiguan = true ↔ Kind.daDuiZi.Applies kaiguan pai pg l := by
  rw [checkIsDaduizi, HashTable.ipairs_eq h.items, Bool.and_eq_true, List.all_eq_true]
  refine and_congr_right fun _ => forall₂_congr fun v hv => ?_
  rw [decide_eq_true_eq]
  rcases hl v hv with h | h | ⟨h, -⟩ <;> simp [h]

theorem checkIsYaojiu_iff (kaiguan : Kaiguan) (pai : PaiMap)
    (hl : ∀ v ∈ l, v.Good ∧ ∀ s ∈ v.tiles, s ∈ paiIds) (hpg : pg.Tiles) (h : Holds list l) :
    checkIsYaojiu list pg kaiguan = true ↔ Kind.yaoJiu.Applies kaiguan pai pg l := by
  rw [checkIsYaojiu, HashTable.ipairs_eq h.items, Bool.and_eq_true, Bool.and_eq_true, and_assoc,
    List.all_eq_true, List.all_eq_true]
  refine and_congr_right fun _ => and_congr ?_ ?_
  · refine forall₂_congr fun v hv => ?_
    rw [exists_yaojiu_iff (hl v hv).1 (hl v hv).2]
  · exact forall_meld_tiles_iff hpg (P := fun s => isYaojiu s = true)

theorem checkIsJiangdui_iff (kaiguan : Kaiguan) (hl : ∀ v ∈ l, v.Good) (hpai : pai.Tiles)
    (hpg : pg.Tiles) (h : Holds list l) :
    checkIsJiangdui list pai pg kaiguan = true ↔ Kind.jiangDui.Applies kaiguan pai pg l := by
  have hshown : (∀ s ∈ paiIds, Shown pai pg s → isJiang s = true) ↔
      (∀ e ∈ pai.entries, 0 < e.2 → isJiang e.1 = true) ∧
        ∀ e ∈ pg.entries, isJiang e.1 = true := by
    rw [forall_entries_iff hpai (P := fun s => isJiang s = true),
      forall_meld_tiles_iff hpg (P := fun s => isJiang s = true), ← forall₂_and]
    exact forall₂_congr fun s _ => or_imp
  rw [checkIsJiangdui, HashTable.ipairs_eq h.items]
  simp only [Bool.and_eq_true, List.all_eq_true, decide_eq_true_eq, and_assoc]
  refine and_congr_right fun _ => and_congr ?_ hshown.symm
  refine forall₂_congr fun v hv => ?_
  rcases hl v hv with h | h | ⟨h, -⟩ <;> simp [h]

end Kinds

/-! ## The rank of a hand -/

theorem Kind.Applies.perm {l l' : List PaiItem} {kind : Kind} (h : kind.Applies kaiguan pai pg l')
    (hl : l'.Perm l) : kind.Applies kaiguan pai pg l := by
  cases kind with
  | plain => exact trivial
  | daDuiZi => exact ⟨h.1, fun v hv => h.2 v (hl.mem_iff.mpr hv)⟩
  | yaoJiu => exact ⟨h.1, fun v hv => h.2.1 v (hl.mem_iff.mpr hv), h.2.2⟩
  | jiangDui => exact ⟨h.1, fun v hv => h.2.1 v (hl.mem_iff.mpr hv), h.2.2⟩

section Rank

variable {n : Nat} {maxShouPaiNum : Int} {info : List (HuPaiData (HashTable Nat PaiItem))}

theorem Layout.mem_paiIds (hpai : pai.Tiles) {l : List PaiItem} (h : Layout pai.num n l) :
    ∀ v ∈ l, v.Good ∧ ∀ s ∈ v.tiles, s ∈ paiIds := fun v hv =>
  ⟨h.good v hv, fun _ hs => hpai.num_ne_zero (h.covers.count_ne_zero hv hs)⟩

theorem raiseType_spec (kaiguan : Kaiguan) (hpai : pai.Tiles) (hpg : pg.Tiles)
    {d : HuPaiData (HashTable Nat PaiItem)} {l : List PaiItem} (hl : Layout pai.num n l)
    (hd : Holds d.list l) (type : Nat) :
    (∀ kind : Kind, kind.Applies kaiguan pai pg l → 1 ≤ type →
      kind.index ≤ raiseType pai pg kaiguan type d) ∧
      (raiseType pai pg kaiguan type d = type ∨ ∃ kind : Kind,
        kind.Applies kaiguan pai pg l ∧ kind.index = raiseType pai pg kaiguan type d) := by
  have hduizi := checkIsDaduizi_iff kaiguan pai pg hl.good hd
  have hjiang := checkIsJiangdui_iff kaiguan hl.good hpai hpg hd
  have hyaojiu := checkIsYaojiu_iff kaiguan pai (Layout.mem_paiIds hpai hl) hpg hd
  constructor
  · intro kind hkind htype
    cases kind with
    | plain => exact htype.trans (Port.le_raiseType type d)
    | daDuiZi =>
        simp only [raiseType, hduizi.mpr hkind, and_true, Kind.index]
        split_ifs <;> omega
    | yaoJiu =>
        simp only [raiseType, hyaojiu.mpr hkind, and_true, Kind.index]
        split_ifs <;> omega
    | jiangDui =>
        simp only [raiseType, hjiang.mpr hkind, and_true, Kind.index]
        split_ifs <;> omega
  · unfold raiseType
    dsimp only
    split_ifs with h2 h5 h4 h4 h5 h4 h4
    · exact .inr ⟨.yaoJiu, hyaojiu.mp h4.2, rfl⟩
    · exact .inr ⟨.jiangDui, hjiang.mp h5.2, rfl⟩
    · exact .inr ⟨.yaoJiu, hyaojiu.mp h4.2, rfl⟩
    · exact .inr ⟨.daDuiZi, hduizi.mp h2.2, rfl⟩
    · exact .inr ⟨.yaoJiu, hyaojiu.mp h4.2, rfl⟩
    · exact .inr ⟨.jiangDui, hjiang.mp h5.2, rfl⟩
    · exact .inr ⟨.yaoJiu, hyaojiu.mp h4.2, rfl⟩
    · exact .inl rfl

theorem foldl_raiseType_spec (kaiguan : Kaiguan) (hpai : pai.Tiles) (hpg : pg.Tiles)
    (hinfo : ∀ d ∈ info, ∃ l, Layout pai.num 1 l ∧ Holds d.list l) (type : Nat)
    (htype : 1 ≤ type) :
    (∀ d ∈ info, ∀ l, Layout pai.num 1 l → Holds d.list l → ∀ kind : Kind,
      kind.Applies kaiguan pai pg l → kind.index ≤ info.foldl (raiseType pai pg kaiguan) type) ∧
      (info.foldl (raiseType pai pg kaiguan) type = type ∨ ∃ l, ∃ kind : Kind,
        Layout pai.num 1 l ∧ kind.Applies kaiguan pai pg l ∧
          kind.index = info.foldl (raiseType pai pg kaiguan) type) := by
  induction info generalizing type with
  | nil => exact ⟨fun d hd => absurd hd List.not_mem_nil, .inl rfl⟩
  | cons d info ih =>
      have hle : type ≤ raiseType pai pg kaiguan type d := Port.le_raiseType type d
      have hle' := Port.le_foldl_raiseType pai pg kaiguan info (raiseType pai pg kaiguan type d)
      obtain ⟨hall, hsome⟩ := ih (fun d' hd' => hinfo d' (List.mem_cons_of_mem d hd'))
        (raiseType pai pg kaiguan type d) (htype.trans hle)
      rw [List.foldl_cons]
      constructor
      · intro d' hd' l hl hholds kind hkind
        rcases List.mem_cons.mp hd' with rfl | hd'
        · exact ((raiseType_spec kaiguan hpai hpg hl hholds type).1 kind hkind htype).trans hle'
        · exact hall d' hd' l hl hholds kind hkind
      · rcases hsome with heq | hsome
        · obtain ⟨l, hl, hholds⟩ := hinfo d List.mem_cons_self
          rw [heq]
          rcases (raiseType_spec kaiguan hpai hpg hl hholds type).2 with h | h
          · exact .inl h
          · obtain ⟨kind, hkind, hindex⟩ := h
            exact .inr ⟨l, kind, hl, hkind, hindex⟩
        · exact .inr hsome

theorem check7dHupaiInfo_iff (kaiguan : Kaiguan) (pg : PgMap) (maxShouPaiNum : Int)
    (hpai : pai.Tiles) :
    check7dHupaiInfo pai pai.count kaiguan maxShouPaiNum = true ↔
      Reads kaiguan pai pg maxShouPaiNum .qiDui := by
  have hentries := forall_entries_iff hpai (P := fun s => pai.num s = 2 ∨ pai.num s = 4)
  rw [check7dHupaiInfo, Bool.and_eq_true, Bool.and_eq_true, and_assoc, List.all_eq_true,
    decide_eq_true_eq, Reads]
  refine and_congr_right fun _ => and_congr_right fun _ => ?_
  constructor
  · intro h s
    by_cases h0 : pai.num s = 0
    · exact .inl h0
    · refine .inr (hentries.mp (fun e he hpos => ?_) s (hpai.num_ne_zero h0) h0)
      have hnum : pai.num e.1 = e.2 := by
        rw [PaiMap.num, mem_entries_iff.mp he]
        rfl
      have := of_decide_eq_true (h e he)
      rw [hnum]
      omega
  · intro h e he
    have hnum : pai.num e.1 = e.2 := by
      rw [PaiMap.num, mem_entries_iff.mp he]
      rfl
    have := h e.1
    rw [hnum] at this
    apply decide_eq_true
    omega

theorem hupaiType_spec (hpai : pai.Tiles) (hpg : pg.Tiles)
    (hsound : ∀ d ∈ info, ∃ l, Layout pai.num 1 l ∧ Holds d.list l)
    (hcomplete : ∀ l, Layout pai.num 1 l → ∃ d ∈ info, ∃ l', l'.Perm l ∧ Holds d.list l') :
    (hupaiType pai pg pai.count kaiguan maxShouPaiNum info = none ↔
      ∀ r, ¬ Reads kaiguan pai pg maxShouPaiNum r) ∧
      ∀ type ∈ hupaiType pai pg pai.count kaiguan maxShouPaiNum info,
        (∃ r, Reads kaiguan pai pg maxShouPaiNum r ∧ r.index = type) ∧
          ∀ r, Reads kaiguan pai pg maxShouPaiNum r → r.index ≤ type := by
  have hseven := check7dHupaiInfo_iff kaiguan pg maxShouPaiNum hpai
  obtain ⟨hall, hsome⟩ := foldl_raiseType_spec kaiguan hpai hpg hsound 1 (le_refl 1)
  set top := info.foldl (raiseType pai pg kaiguan) 1
  -- of the layouts: their kinds are bounded by the fold, and it is one of them
  have hbound : ∀ l (kind : Kind), Reads kaiguan pai pg maxShouPaiNum (.layout l kind) →
      kind.index ≤ top := by
    rintro l kind ⟨hl, hkind⟩
    obtain ⟨d, hd, l', hperm, hholds⟩ := hcomplete l hl
    exact hall d hd l' (hl.perm hperm.symm) hholds kind (hkind.perm hperm.symm)
  have hreach : info ≠ [] → ∃ r, Reads kaiguan pai pg maxShouPaiNum r ∧ r.index = top := by
    intro hne
    rcases hsome with htop | ⟨l, kind, hl, hkind, hindex⟩
    · obtain ⟨d, hd⟩ := List.exists_mem_of_ne_nil _ hne
      obtain ⟨l, hl, -⟩ := hsound d hd
      exact ⟨.layout l .plain, ⟨hl, trivial⟩, htop.symm⟩
    · exact ⟨.layout l kind, ⟨hl, hkind⟩, hindex⟩
  have hnone : info = [] → ∀ l (kind : Kind),
      ¬ Reads kaiguan pai pg maxShouPaiNum (.layout l kind) := by
    rintro rfl l kind ⟨hl, -⟩
    obtain ⟨d, hd, -⟩ := hcomplete l hl
    exact List.not_mem_nil hd
  have htype : hupaiType pai pg pai.count kaiguan maxShouPaiNum info =
      if check7dHupaiInfo pai pai.count kaiguan maxShouPaiNum = true ∧ (info ≠ [] → 3 > top) then
        some 3
      else if info = [] then none else some top := by
    unfold hupaiType
    cases info <;> simp [top]
  by_cases h7 : check7dHupaiInfo pai pai.count kaiguan maxShouPaiNum = true ∧
      (info ≠ [] → 3 > top)
  · rw [htype, if_pos h7]
    have hreads := hseven.mp h7.1
    refine ⟨⟨fun h => absurd h (by simp), fun h => absurd hreads (h _)⟩, ?_⟩
    rintro type htype
    obtain rfl := Option.some.inj htype
    refine ⟨⟨.qiDui, hreads, rfl⟩, fun r hr => ?_⟩
    cases r with
    | layout l kind =>
        have hne : info ≠ [] := fun h => hnone h l kind hr
        exact (hbound l kind hr).trans (Nat.le_of_lt (h7.2 hne))
    | qiDui => exact le_refl 3
  · rw [htype, if_neg h7]
    by_cases hinfo : info = []
    · rw [if_pos hinfo]
      refine ⟨⟨fun _ r hr => ?_, fun _ => rfl⟩, fun type htype => absurd htype (by simp)⟩
      cases r with
      | layout l kind => exact hnone hinfo l kind hr
      | qiDui => exact h7 ⟨hseven.mpr hr, fun h => absurd hinfo h⟩
    · rw [if_neg hinfo]
      obtain ⟨r₀, hr₀, hindex₀⟩ := hreach hinfo
      refine ⟨⟨fun h => absurd h (by simp), fun h => absurd hr₀ (h _)⟩, ?_⟩
      rintro type htype
      obtain rfl := Option.some.inj htype
      refine ⟨⟨r₀, hr₀, hindex₀⟩, fun r hr => ?_⟩
      cases r with
      | layout l kind => exact hbound l kind hr
      | qiDui =>
          by_contra hlt
          exact h7 ⟨hseven.mpr hr, fun _ => Nat.lt_of_not_le hlt⟩

end Rank

/-! ## The fans of the rank -/

def fanSum (res : HashTable Fan Int) : Int := (res.entries.map (·.2)).sum

theorem fanSum_insert {res : HashTable Fan Int} {fan : Fan} (h : res.lookup fan = none) (v : Int) :
    fanSum (res.insert fan v) = v + fanSum res := by
  rw [fanSum, AList.entries_insert_of_notMem (AList.lookup_eq_none.mp h)]
  rfl

theorem fanSum_setField {res : HashTable Fan Int} {fan : Fan} (h : res.lookup fan = none)
    (v : Option Int) : fanSum (setField res fan v) = v.getD 0 + fanSum res := by
  cases v with
  | none =>
      have herase : res.erase fan = res :=
        AList.ext (List.kerase_of_notMem_keys (AList.lookup_eq_none.mp h))
      rw [setField, herase, Option.getD_none, Int.zero_add]
  | some v => exact fanSum_insert h v

theorem lookup_setField_ne {res : HashTable Fan Int} {fan fan' : Fan} (h : fan' ≠ fan)
    (v : Option Int) : (setField res fan v).lookup fan' = res.lookup fan' := by
  cases v with
  | none => exact AList.lookup_erase_ne h
  | some v => exact AList.lookup_insert_ne h

theorem fanSum_fanIf {multi : MultiTypes} {res : HashTable Fan Int} {fan : Fan}
    (h : res.lookup fan = none) (c : Bool) :
    fanSum (fanIf multi c fan res) = (if c then (multi.lookup fan).getD 0 else 0) + fanSum res := by
  rw [fanIf]
  cases c with
  | true => exact fanSum_setField h _
  | false => exact (Int.zero_add _).symm

theorem lookup_fanIf_ne {multi : MultiTypes} {res : HashTable Fan Int} {fan fan' : Fan}
    (h : fan' ≠ fan) (c : Bool) : (fanIf multi c fan res).lookup fan' = res.lookup fan' := by
  rw [fanIf]
  cases c with
  | true => exact lookup_setField_ne h _
  | false => rfl

theorem fanSum_typeFan (multi : MultiTypes) (r : Reading) {roots : Int} (hroots : 0 ≤ roots) :
    let t := typeFan multi r.index roots
    0 ≤ t.2 ∧ fanSum t.1 + t.2 = r.fan multi roots ∧
      ∀ fan ∈ [Fan.daiGeng, .qingYiSe, .zhongZhang, .menQing, .jinGouDiao],
        t.1.lookup fan = none := by
  have hset : ∀ fan, fanSum (setField ∅ fan (multi.lookup fan)) = (multi.lookup fan).getD 0 := by
    intro fan
    rw [fanSum_setField (AList.lookup_empty fan)]
    exact Int.add_zero _
  have hlookup : ∀ fan ∉ [Fan.daiGeng, .qingYiSe, .zhongZhang, .menQing, .jinGouDiao],
      ∀ fan' ∈ [Fan.daiGeng, .qingYiSe, .zhongZhang, .menQing, .jinGouDiao],
        (setField ∅ fan (multi.lookup fan)).lookup fan' = none := by
    intro fan hfan fan' hfan'
    rw [lookup_setField_ne (by rintro rfl; exact hfan hfan')]
    exact AList.lookup_empty fan'
  obtain _ | _ := r
  · next l kind =>
      cases kind with
      | plain => exact ⟨hroots, Int.zero_add _, fun fan _ => AList.lookup_empty fan⟩
      | daDuiZi => exact ⟨hroots, congrArg (· + roots) (hset _), hlookup _ (by decide)⟩
      | yaoJiu => exact ⟨hroots, congrArg (· + roots) (hset _), hlookup _ (by decide)⟩
      | jiangDui => exact ⟨hroots, congrArg (· + roots) (hset _), hlookup _ (by decide)⟩
  · by_cases hpos : roots > 0
    · simp only [typeFan, Reading.index, Reading.fan, hpos, ↓reduceIte]
      exact ⟨by omega, congrArg (· + (roots - 1)) (hset _), hlookup _ (by decide)⟩
    · have hzero : roots = 0 := by omega
      subst hzero
      exact ⟨le_refl 0, (Int.add_zero _).trans (hset _), hlookup _ (by decide)⟩

theorem checkIsZhongzhang_iff (hpai : pai.Tiles) (hpg : pg.Tiles) :
    checkIsZhongzhang pai pg kaiguan = true ↔
      kaiguanOn kaiguan .zhongZhang ∧ ∀ s ∈ paiIds, Shown pai pg s → ¬ isYaojiu s := by
  have hshown : (∀ s ∈ paiIds, Shown pai pg s → ¬ isYaojiu s = true) ↔
      (∀ e ∈ pai.entries, 0 < e.2 → ¬ isYaojiu e.1 = true) ∧
        ∀ e ∈ pg.entries, ¬ isYaojiu e.1 = true := by
    rw [forall_entries_iff hpai (P := fun s => ¬ isYaojiu s = true),
      forall_meld_tiles_iff hpg (P := fun s => ¬ isYaojiu s = true), ← forall₂_and]
    exact forall₂_congr fun s _ => or_imp
  rw [hshown, checkIsZhongzhang]
  simp only [isYaojiu, Bool.and_eq_true, List.all_eq_true, decide_eq_true_eq, and_assoc]

theorem checkIsMenqing_iff (hpg : pg.Tiles) :
    checkIsMenqing pg kaiguan = true ↔
      kaiguanOn kaiguan .menQing ∧ ∀ s ∈ paiIds, ∀ type ∈ pg.lookup s, type = .ag := by
  rw [← forall_melds_iff hpg (P := fun _ type => type = .ag), checkIsMenqing]
  simp only [Bool.and_eq_true, List.all_eq_true, decide_eq_true_eq]

theorem checkIsJingoudiao_iff :
    checkIsJingoudiao pai kaiguan = true ↔ kaiguanOn kaiguan .jinGouDiao ∧ pai.count = 2 := by
  rw [checkIsJingoudiao, Bool.and_eq_true, decide_eq_true_eq]
  rfl

theorem fans_mul (multi : MultiTypes) (hpai : pai.Tiles) (hpg : pg.Tiles)
    (hsome : ∃ s ∈ paiIds, Shown pai pg s) (r : Reading) :
    (fans pai pg (huaSeCount pai pg) kaiguan multi r.index).mul =
      r.fan multi (getGengNum pai pg) + commonFan kaiguan pai pg multi := by
  have hroots : 0 ≤ getGengNum pai pg :=
    Int.add_nonneg (Int.natCast_nonneg _) (Int.natCast_nonneg _)
  obtain ⟨hleft, hsum, hfresh⟩ := fanSum_typeFan multi r hroots
  set t := typeFan multi r.index (getGengNum pai pg) with ht
  set res : HashTable Fan Int := if t.2 > 0 then t.1.insert .daiGeng t.2 else t.1 with hres
  have hgeng : fanSum res = t.2 + fanSum t.1 := by
    rw [hres]
    split
    · exact fanSum_insert (hfresh .daiGeng (by decide)) _
    · rw [show t.2 = 0 by omega, Int.zero_add]
  have hlookup : ∀ fan ∈ [Fan.qingYiSe, .zhongZhang, .menQing, .jinGouDiao],
      res.lookup fan = none := by
    intro fan hfan
    have hne : fan ≠ .daiGeng := by
      rintro rfl
      exact absurd hfan (by decide)
    rw [hres]
    split
    · rw [AList.lookup_insert_ne hne, hfresh fan (List.mem_cons_of_mem _ hfan)]
    · exact hfresh fan (List.mem_cons_of_mem _ hfan)
  have hone := huaSeCount_eq_one_iff hpai hpg hsome
  have hmul : (fans pai pg (huaSeCount pai pg) kaiguan multi r.index).mul =
      fanSum (fanIf multi (checkIsJingoudiao pai kaiguan) .jinGouDiao
        (fanIf multi (checkIsMenqing pg kaiguan) .menQing
          (fanIf multi (checkIsZhongzhang pai pg kaiguan) .zhongZhang
            (fanIf multi (huaSeCount pai pg = 1 && kaiguanOn kaiguan .qingYiSe) .qingYiSe
              res)))) := rfl
  rw [hmul, fanSum_fanIf, fanSum_fanIf, fanSum_fanIf, fanSum_fanIf, hgeng, ← hsum, commonFan]
  · simp only [checkIsJingoudiao_iff, checkIsMenqing_iff hpg, checkIsZhongzhang_iff hpai hpg,
      Bool.and_eq_true, decide_eq_true_eq, hone, and_comm (b := kaiguanOn kaiguan .qingYiSe = true)]
    omega
  · exact hlookup _ (by decide)
  · rw [lookup_fanIf_ne (by decide)]
    exact hlookup _ (by decide)
  · rw [lookup_fanIf_ne (by decide), lookup_fanIf_ne (by decide)]
    exact hlookup _ (by decide)
  · rw [lookup_fanIf_ne (by decide), lookup_fanIf_ne (by decide), lookup_fanIf_ne (by decide)]
    exact hlookup _ (by decide)

theorem fan_mono {r r' : Reading} (h : r.index ≤ r'.index) {roots : Int} (hroots : 0 ≤ roots) :
    r.fan getDefaultMulti roots ≤ r'.fan getDefaultMulti roots := by
  have hdui : (getDefaultMulti.lookup .daDuiZi).getD 0 = 1 := rfl
  have hyao : (getDefaultMulti.lookup .yaoJiu).getD 0 = 2 := rfl
  have hjiang : (getDefaultMulti.lookup .jiangDui).getD 0 = 3 := rfl
  have hlong : (getDefaultMulti.lookup .longQiDui).getD 0 = 3 := rfl
  have hqi : (getDefaultMulti.lookup .qiDui).getD 0 = 2 := rfl
  have hvalue : ∀ r : Reading, r.fan getDefaultMulti roots = roots +
      if r.index = 1 then 0 else if r.index = 2 then 1 else if r.index = 5 then 3 else 2 := by
    intro r
    obtain ⟨l, kind⟩ | _ := r
    · cases kind <;> simp only [Reading.fan, Reading.index, Kind.index, hdui, hyao, hjiang,
        Nat.reduceEqDiff, ↓reduceIte] <;> omega
    · simp only [Reading.fan, Reading.index, hlong, hqi]
      split_ifs <;> omega
  have hrange : ∀ r : Reading, r.index ∈ [1, 2, 3, 4, 5] := by
    intro r
    obtain ⟨l, kind⟩ | _ := r
    · cases kind <;> simp [Reading.index, Kind.index]
    · simp [Reading.index]
  have h1 := hrange r
  have h2 := hrange r'
  rw [hvalue, hvalue]
  simp only [List.mem_cons, List.not_mem_nil, or_false] at h1 h2
  split_ifs <;> omega

theorem computeHupaiInfo_spec (kaiguan : Kaiguan) (multi : MultiTypes) (hpai : pai.Tiles)
    (hpg : pg.Tiles) (huaSeCount : Nat) (maxShouPaiNum : Int) :
    ∃ type, computeHupaiInfo pai pg pai.count huaSeCount kaiguan multi maxShouPaiNum =
        some (type.map (fans pai pg huaSeCount kaiguan multi)) ∧
      (type = none ↔ ∀ r, ¬ Reads kaiguan pai pg maxShouPaiNum r) ∧
      ∀ t ∈ type, (∃ r, Reads kaiguan pai pg maxShouPaiNum r ∧ r.index = t) ∧
        ∀ r, Reads kaiguan pai pg maxShouPaiNum r → r.index ≤ t := by
  obtain ⟨w, hw, -, hsound, hcomplete, -⟩ :=
    computeNorHupaiInfo_layouts pai hpai (pai.count + 1) (Nat.lt_succ_self _)
  refine ⟨hupaiType pai pg pai.count kaiguan maxShouPaiNum w.info, ?_,
    hupaiType_spec hpai hpg hsound hcomplete⟩
  rw [computeHupaiInfo, hw]
  rfl

theorem Reads.exists_tile (hpai : pai.Tiles) {maxShouPaiNum : Int} (hmax : 0 < maxShouPaiNum)
    {r : Reading} (h : Reads kaiguan pai pg maxShouPaiNum r) : ∃ s, pai.num s ≠ 0 := by
  by_contra hno
  have hzero : ∀ s, pai.num s = 0 := fun s => Classical.not_not.mp fun hs => hno ⟨s, hs⟩
  obtain ⟨l, kind⟩ | _ := r
  · obtain ⟨hl, -⟩ := h
    have hnil := hl.eq_nil hzero
    subst hnil
    exact Nat.zero_ne_one hl.pairs
  · obtain ⟨-, hcount, -⟩ := h
    have hsum : Port.tiles pai.num = 0 := Finset.sum_eq_zero fun s _ => hzero s
    rw [hpai.tiles_num] at hsum
    omega

/-- The win is scored by its best reading, and there is no win without a reading. -/
theorem computeHupaiInfo_best (kaiguan : Kaiguan) (pai : PaiMap) (pg : PgMap) (hpai : pai.Tiles)
    (hpg : pg.Tiles) (maxShouPaiNum : Int) (hmax : 0 < maxShouPaiNum) :
    ∃ res, computeHupaiInfo pai pg pai.count (huaSeCount pai pg) kaiguan getDefaultMulti
        maxShouPaiNum = some res ∧
      (res = none ↔ ∀ r, ¬ Reads kaiguan pai pg maxShouPaiNum r) ∧
      ∀ info ∈ res, IsGreatest
        {fan | ∃ r, Reads kaiguan pai pg maxShouPaiNum r ∧
          fan = r.fan getDefaultMulti (getGengNum pai pg) +
            commonFan kaiguan pai pg getDefaultMulti} info.mul := by
  obtain ⟨type, hres, hnone, htop⟩ := computeHupaiInfo_spec kaiguan getDefaultMulti
    hpai hpg (huaSeCount pai pg) maxShouPaiNum
  refine ⟨_, hres, by rw [Option.map_eq_none_iff, hnone], ?_⟩
  intro info hinfo
  obtain ⟨t, rfl, rfl⟩ := Option.map_eq_some_iff.mp hinfo
  obtain ⟨⟨r, hr, rfl⟩, hle⟩ := htop _ rfl
  have hsome : ∃ s ∈ paiIds, Shown pai pg s := by
    obtain ⟨s, hs⟩ := hr.exists_tile hpai hmax
    exact ⟨s, hpai.num_ne_zero hs, .inl hs⟩
  have hroots : 0 ≤ getGengNum pai pg :=
    Int.add_nonneg (Int.natCast_nonneg _) (Int.natCast_nonneg _)
  rw [fans_mul getDefaultMulti hpai hpg hsome r]
  refine ⟨⟨r, hr, rfl⟩, ?_⟩
  rintro fan ⟨r', hr', rfl⟩
  exact Int.add_le_add_right (fan_mono (hle r' hr') hroots) _

theorem computeHupaiInfo_best_threes :
    ∃ res, computeHupaiInfo threeThrees [⟨28, .peng⟩].toAList threeThrees.count
        (huaSeCount threeThrees [⟨28, .peng⟩].toAList) [⟨.daDuiZi, true⟩].toAList getDefaultMulti
        14 = some res ∧
      (res = none ↔ ∀ r, ¬ Reads [⟨.daDuiZi, true⟩].toAList threeThrees [⟨28, .peng⟩].toAList
        14 r) ∧
      ∀ info ∈ res, IsGreatest
        {fan | ∃ r, Reads [⟨.daDuiZi, true⟩].toAList threeThrees [⟨28, .peng⟩].toAList 14 r ∧
          fan = r.fan getDefaultMulti (getGengNum threeThrees [⟨28, .peng⟩].toAList) +
            commonFan [⟨.daDuiZi, true⟩].toAList threeThrees [⟨28, .peng⟩].toAList
              getDefaultMulti} info.mul :=
  computeHupaiInfo_best _ threeThrees _ (by decide) (by decide) 14 (by decide)

end JyQipai.Mj.Algorithm
