import JyQipai.Mj.Reading

/-!
# The tiles that a hand waits for

`get_ting_info` adds one tile after the other to a copy of the hand.  It counts the suits once,
does not look at the suit to void again, and leaves out a tile that is alone among its neighbours:
such a tile is in no item of a layout, so what is left has its suit in the hand already.
-/

namespace JyQipai.Mj.Algorithm

open JyQipai.Lib

structure TingInfo where
  tingPai : Nat
  info : HuPaiInfo (HashTable Fan Int)

def PaiMap.add (pai : PaiMap) (s : Nat) : PaiMap := pai.insert s (pai.num s + 1)

/-- `pai_map[s] = pai_map[s] - 1`, and no entry of zero is left. -/
def PaiMap.drop (pai : PaiMap) (s : Nat) : PaiMap :=
  if pai.num s - 1 = 0 then pai.erase s else pai.insert s (pai.num s - 1)

def checkHaveLianzi (pm : PaiMap) (s : Nat) : Bool :=
  (s + 2 < 40 ∧ 0 < pm.num s ∧ 0 < pm.num (s + 1) ∧ 0 < pm.num (s + 2)) ∨
    (s - 1 > 10 ∧ s + 1 < 40 ∧ 0 < pm.num s ∧ 0 < pm.num (s + 1) ∧ 0 < pm.num (s - 1)) ∨
    (s - 2 > 10 ∧ 0 < pm.num s ∧ 0 < pm.num (s - 1) ∧ 0 < pm.num (s - 2))

def baseShouPaiNum (self : Algorithm) : Int := self.maxShouPaiNum - 1

def tryTing (self : Algorithm) (pg : PgMap) (huaSeCount s : Nat) (copy : PaiMap) :
    Option (Option (HuPaiInfo (HashTable Fan Int))) :=
  if copy.num s > 1 ∨ checkHaveLianzi copy s then
    let huaSe : HashTable Nat Nat := ((∅ : HashTable Nat Nat).insert 1 0 |>.insert 2 0).insert 3 0
    computeHupaiInfo copy pg (tongjiPaiInfo copy huaSe).1 huaSeCount self.kaiguan self.multiTypes
      self.maxShouPaiNum
  else some none

def tingStep (self : Algorithm) (pg : PgMap) (huaSeCount : Nat) (st : PaiMap × List TingInfo)
    (s : Nat) : Option (PaiMap × List TingInfo) :=
  let copy := st.1.add s
  (tryTing self pg huaSeCount s copy).map fun res =>
    (copy.drop s, st.2 ++ (res.map (TingInfo.mk s)).toList)

def getTingInfo (self : Algorithm) (pai : PaiMap) (pg : PgMap) (mustQue : Option Nat) :
    Option (Option (List TingInfo)) :=
  let huaSe : HashTable Nat Nat := ((∅ : HashTable Nat Nat).insert 1 0 |>.insert 2 0).insert 3 0
  let (count1, huaSe) := tongjiPaiInfo pai huaSe
  let (count2, huaSe) := tongjiPenggangInfo pg huaSe
  let huaSeCount := huaSeOf huaSe 1 + huaSeOf huaSe 2 + huaSeOf huaSe 3
  if (count1 + count2 : Int) ≠ baseShouPaiNum self ∨ huaSeCount > 2 then some none
  else if ∃ que ∈ mustQue, huaSeOf huaSe que > 0 then some none
  else
    (((List.range' 11 29).filter fun s => s % 10 ≠ 0).foldlM (tingStep self pg huaSeCount)
      (pai, [])).map fun st => if st.2 = [] then none else some st.2

/-! ## What a win depends on -/

variable {kaiguan : Kaiguan} {pai pai' : PaiMap} {pg : PgMap} {s : Nat}

theorem countP_entries (hpai : pai.Tiles) (q : Nat → Nat → Bool) (hq : ∀ s, q s 0 = false) :
    (pai.entries.countP fun e => q e.1 e.2) = paiIds.countP fun s => q s (pai.num s) := by
  have hnum : ∀ e ∈ pai.entries, pai.num e.1 = e.2 := by
    intro e he
    rw [PaiMap.num, mem_entries_iff.mp he]
    rfl
  have hperm : ((pai.entries.filter fun e => q e.1 e.2).map (·.1)).Perm
      (paiIds.filter fun s => q s (pai.num s)) := by
    rw [List.perm_ext_iff_of_nodup]
    · intro s
      simp only [List.mem_map, List.mem_filter]
      constructor
      · rintro ⟨e, ⟨he, hqe⟩, rfl⟩
        exact ⟨hpai e.1 (List.mem_map_of_mem (f := Sigma.fst) he), by rw [hnum e he]; exact hqe⟩
      · rintro ⟨-, hqs⟩
        cases hn : pai.lookup s with
        | none =>
            have hzero : pai.num s = 0 := by
              rw [PaiMap.num, hn]
              rfl
            rw [hzero, hq] at hqs
            exact Bool.noConfusion hqs
        | some n =>
            have hsome : pai.num s = n := by
              rw [PaiMap.num, hn]
              rfl
            exact ⟨⟨s, n⟩, ⟨mem_entries_iff.mpr hn, hsome ▸ hqs⟩, rfl⟩
    · exact List.Nodup.sublist ((List.filter_sublist).map _) pai.nodupKeys
    · exact List.Nodup.filter _ (by decide)
  rw [List.countP_eq_length_filter, List.countP_eq_length_filter, ← hperm.length_eq,
    List.length_map]

section Congr

variable (hpai : pai.Tiles) (hpai' : pai'.Tiles) (hnum : ∀ s, pai.num s = pai'.num s)

include hnum

theorem reads_congr (hpai : pai.Tiles) (hpai' : pai'.Tiles) {maxShouPaiNum : Int} (r : Reading) :
    Reads kaiguan pai pg maxShouPaiNum r ↔ Reads kaiguan pai' pg maxShouPaiNum r := by
  have heq : pai.num = pai'.num := funext hnum
  have hcount : pai.count = pai'.count := by
    rw [← hpai.tiles_num, ← hpai'.tiles_num, heq]
  obtain ⟨l, kind⟩ | _ := r
  · simp only [Reads, heq]
    refine and_congr_right fun _ => ?_
    cases kind <;> simp only [Kind.Applies, Shown, heq]
  · simp only [Reads, heq, hcount]

include hpai hpai'

theorem getGengNum_congr : getGengNum pai pg = getGengNum pai' pg := by
  have hcount := countP_entries hpai
    (fun s n => n = 4 ∨ n = 1 ∧ pg.lookup s = some .peng) (by simp)
  have hcount' := countP_entries hpai'
    (fun s n => n = 4 ∨ n = 1 ∧ pg.lookup s = some .peng) (by simp)
  have heq : pai.num = pai'.num := funext hnum
  rw [getGengNum, getGengNum, hcount, hcount', heq]

theorem fans_congr (hpg : pg.Tiles) (huaSeCount : Nat) (multi : MultiTypes) (type : Nat) :
    fans pai pg huaSeCount kaiguan multi type = fans pai' pg huaSeCount kaiguan multi type := by
  have hgeng : getGengNum pai pg = getGengNum pai' pg := getGengNum_congr hpai hpai' hnum
  have hzhang : checkIsZhongzhang pai pg kaiguan = checkIsZhongzhang pai' pg kaiguan := by
    rw [Bool.eq_iff_iff, checkIsZhongzhang_iff hpai hpg, checkIsZhongzhang_iff hpai' hpg]
    simp only [Shown, hnum]
  have hdiao : checkIsJingoudiao pai kaiguan = checkIsJingoudiao pai' kaiguan := by
    rw [Bool.eq_iff_iff, checkIsJingoudiao_iff, checkIsJingoudiao_iff, ← hpai.tiles_num,
      ← hpai'.tiles_num, funext hnum]
  unfold fans
  rw [hgeng, hzhang, hdiao]

theorem computeHupaiInfo_congr (hpg : pg.Tiles) (huaSeCount : Nat) (multi : MultiTypes)
    (maxShouPaiNum : Int) :
    computeHupaiInfo pai pg pai.count huaSeCount kaiguan multi maxShouPaiNum =
      computeHupaiInfo pai' pg pai'.count huaSeCount kaiguan multi maxShouPaiNum := by
  obtain ⟨type, hres, hnone, htop⟩ := computeHupaiInfo_spec kaiguan multi hpai hpg
    huaSeCount maxShouPaiNum
  obtain ⟨type', hres', hnone', htop'⟩ := computeHupaiInfo_spec kaiguan multi hpai'
    hpg huaSeCount maxShouPaiNum
  have hreads : ∀ r, Reads kaiguan pai pg maxShouPaiNum r ↔
      Reads kaiguan pai' pg maxShouPaiNum r := reads_congr hnum hpai hpai'
  have htype : type = type' := by
    cases type with
    | none =>
        refine (hnone'.mpr fun r hr => ?_).symm
        exact hnone.mp rfl r ((hreads r).mpr hr)
    | some t =>
        obtain ⟨⟨r, hr, rfl⟩, hle⟩ := htop _ rfl
        cases type' with
        | none => exact absurd ((hreads r).mp hr) (hnone'.mp rfl r)
        | some t' =>
            obtain ⟨⟨r', hr', rfl⟩, hle'⟩ := htop' _ rfl
            exact congrArg some (Nat.le_antisymm (hle' r ((hreads r).mp hr))
              (hle r' ((hreads r').mpr hr')))
  rw [hres, hres', htype]
  exact congrArg (fun f => some (Option.map f type'))
    (funext fun t => fans_congr hpai hpai' hnum hpg huaSeCount multi t)

end Congr

/-! ## One more tile -/

theorem num_add (pai : PaiMap) (s k : Nat) :
    (pai.add s).num k = if k = s then pai.num s + 1 else pai.num k := by
  unfold PaiMap.add PaiMap.num
  split
  · next h => rw [h, AList.lookup_insert, Option.getD_some]
  · next h => rw [AList.lookup_insert_ne h]

theorem num_drop (pai : PaiMap) (s k : Nat) :
    (pai.drop s).num k = if k = s then pai.num s - 1 else pai.num k := by
  unfold PaiMap.drop
  split
  · next h0 =>
      unfold PaiMap.num at h0 ⊢
      split
      · next h => rw [h, AList.lookup_erase, h0, Option.getD_none]
      · next h => rw [AList.lookup_erase_ne h]
  · unfold PaiMap.num
    split
    · next h => rw [h, AList.lookup_insert, Option.getD_some]
    · next h => rw [AList.lookup_insert_ne h]

theorem Tiles.insert (hpai : pai.Tiles) (hs : s ∈ paiIds) (n : Nat) :
    PaiMap.Tiles (pai.insert s n) := by
  intro k hk
  rcases (AList.mem_insert pai).mp (AList.mem_keys.mpr hk) with rfl | hk
  · exact hs
  · exact hpai k (AList.mem_keys.mp hk)

theorem Tiles.add (hpai : pai.Tiles) (hs : s ∈ paiIds) : (pai.add s).Tiles :=
  Tiles.insert hpai hs _

theorem Tiles.drop (hpai : pai.Tiles) (hs : s ∈ paiIds) : (pai.drop s).Tiles := by
  unfold PaiMap.drop
  split
  · intro k hk
    exact hpai k (AList.mem_keys.mp (AList.mem_erase.mp (AList.mem_keys.mpr hk)).2)
  · exact Tiles.insert hpai hs _

theorem count_add (hpai : pai.Tiles) (hs : s ∈ paiIds) : (pai.add s).count = pai.count + 1 := by
  have hmem : s ∈ Finset.range 40 := Finset.mem_range.mpr (lt_of_mem_paiIds hs)
  have hnum : (pai.add s).num = fun k => pai.num k + if k = s then 1 else 0 := by
    funext k
    rw [num_add]
    split
    · next h => rw [h]
    · rfl
  rw [← (Tiles.add hpai hs).tiles_num, ← hpai.tiles_num, Port.tiles, hnum, Finset.sum_add_distrib,
    Finset.sum_ite_eq', if_pos hmem]
  rfl

theorem not_reads_of_alone (hpai : pai.Tiles) {maxShouPaiNum : Int} (hone : pai.num s = 1)
    (halone : checkHaveLianzi pai s = false) (r : Reading) :
    ¬ Reads kaiguan pai pg maxShouPaiNum r := by
  intro h
  obtain ⟨l, kind⟩ | _ := r
  · obtain ⟨hl, -⟩ := h
    obtain ⟨⟨type, a⟩, hv, hmem⟩ := hl.covers.exists_mem (t := s) (by omega)
    have hfits := (hl.fits_of_mem hv).1
    have hs := hfits s
    rcases hl.good _ hv with htype | htype | ⟨htype, -⟩ <;> dsimp only at htype <;>
      subst htype
    · obtain rfl : s = a := by simpa [PaiItem.tiles] using hmem
      rw [count_pair, if_pos rfl] at hs
      omega
    · obtain rfl : s = a := by simpa [PaiItem.tiles] using hmem
      rw [count_three, if_pos rfl] at hs
      omega
    · obtain ⟨h0, h1, h2⟩ := fits_run.mp hfits
      have hlow := le_of_mem_paiIds (hpai.num_ne_zero h0.ne')
      have hhigh := lt_of_mem_paiIds (hpai.num_ne_zero h2.ne')
      have hwhere : s = a ∨ s = a + 1 ∨ s = a + 2 := by simpa [PaiItem.tiles] using hmem
      simp only [checkHaveLianzi, decide_eq_false_iff_not, not_or] at halone
      rcases hwhere with rfl | rfl | rfl
      · exact halone.1 ⟨hhigh, h0, h1, h2⟩
      · exact halone.2.1 ⟨by omega, by omega, h1, h2, h0⟩
      · exact halone.2.2 ⟨by omega, h2, h1, h0⟩
  · have := h.2.2 s
    omega

theorem flower_succ {s : Nat} (h0 : s ∈ paiIds) (h1 : s + 1 ∈ paiIds) :
    flower (s + 1) = flower s := by
  revert h1
  revert s
  decide

theorem suit_of_filter (hpai : pai.Tiles) (hs : s ∈ paiIds)
    (h : (pai.add s).num s > 1 ∨ checkHaveLianzi (pai.add s) s = true) :
    ∃ t ∈ paiIds, pai.num t ≠ 0 ∧ flower t = flower s := by
  rcases h with h | h
  · rw [num_add, if_pos rfl] at h
    exact ⟨s, hs, by omega, rfl⟩
  · have hother : ∀ t, t ≠ s → 0 < (pai.add s).num t → t ∈ paiIds ∧ pai.num t ≠ 0 := by
      intro t ht hpos
      rw [num_add, if_neg ht] at hpos
      exact ⟨hpai.num_ne_zero hpos.ne', hpos.ne'⟩
    simp only [checkHaveLianzi, decide_eq_true_eq] at h
    rcases h with ⟨-, -, h1, -⟩ | ⟨-, -, -, h1, -⟩ | ⟨hs10, -, h1, -⟩
    · obtain ⟨hmem, hne⟩ := hother (s + 1) (by omega) h1
      exact ⟨s + 1, hmem, hne, flower_succ hs hmem⟩
    · obtain ⟨hmem, hne⟩ := hother (s + 1) (by omega) h1
      exact ⟨s + 1, hmem, hne, flower_succ hs hmem⟩
    · obtain ⟨hmem, hne⟩ := hother (s - 1) (by omega) h1
      have hback : s - 1 + 1 = s := by omega
      have := flower_succ hmem (hback.symm ▸ hs)
      rw [hback] at this
      exact ⟨s - 1, hmem, hne, this.symm⟩

/-! ## The conditions before the search -/

def PgMap.count (pg : PgMap) : Nat := 3 * pg.entries.length

theorem tongjiPenggangInfo_count (pg : PgMap) (huaSe : HashTable Nat Nat) :
    (tongjiPenggangInfo pg huaSe).1 = pg.count := by
  unfold tongjiPenggangInfo PgMap.count
  rw [Port.walk_count (fun _ => true) (fun _ => 3) (fun h e => h.insert (e.1 / 10) 1) (by simp)]
  simp [mul_comm]

/-- Too many suits, or one that is to be void: there is no win and no wait. -/
def Refused (pai : PaiMap) (pg : PgMap) (mustQue : Option Nat) : Prop :=
  huaSeCount pai pg > 2 ∨ ∃ que ∈ mustQue, huaSeOf (huaSe pai pg) que > 0

instance (pai : PaiMap) (pg : PgMap) (mustQue : Option Nat) : Decidable (Refused pai pg mustQue) :=
  inferInstanceAs (Decidable (_ ∨ _))

theorem getHupaiInfo_eq (self : Algorithm) {mustQue : Option Nat}
    (hcount : (pai.count + pg.count : Int) = self.maxShouPaiNum) :
    self.getHupaiInfo pai pg mustQue = if Refused pai pg mustQue then some none
      else computeHupaiInfo pai pg pai.count (huaSeCount pai pg) self.kaiguan self.multiTypes
        self.maxShouPaiNum := by
  have hpai := Port.tongjiPaiInfo_count pai
    (((∅ : HashTable Nat Nat).insert 1 0 |>.insert 2 0).insert 3 0)
  unfold getHupaiInfo
  dsimp only
  rw [tongjiPenggangInfo_count, hpai]
  change (if ((pai.count : Int) + pg.count) ≠ self.maxShouPaiNum ∨ huaSeCount pai pg > 2 then _
    else if ∃ que ∈ mustQue, huaSeOf (huaSe pai pg) que > 0 then _ else _) = _
  by_cases h2 : huaSeCount pai pg > 2
  · rw [if_pos (.inr h2), if_pos (.inl h2)]
  · rw [if_neg (not_or.mpr ⟨not_not.mpr hcount, h2⟩)]
    by_cases hque : ∃ que ∈ mustQue, huaSeOf (huaSe pai pg) que > 0
    · rw [if_pos hque, if_pos (.inr hque)]
    · have hpass : ¬ Refused pai pg mustQue := not_or.mpr ⟨h2, hque⟩
      rw [if_neg hque, if_neg hpass]
      rfl

theorem getTingInfo_eq (self : Algorithm) {mustQue : Option Nat}
    (hcount : (pai.count + pg.count : Int) = baseShouPaiNum self) :
    getTingInfo self pai pg mustQue = if Refused pai pg mustQue then some none
      else (paiIds.foldlM (tingStep self pg (huaSeCount pai pg)) (pai, [])).map fun st =>
        if st.2 = [] then none else some st.2 := by
  have hpai := Port.tongjiPaiInfo_count pai
    (((∅ : HashTable Nat Nat).insert 1 0 |>.insert 2 0).insert 3 0)
  have hids : ((List.range' 11 29).filter fun s => decide (s % 10 ≠ 0)) = paiIds := by decide
  unfold getTingInfo
  dsimp only
  rw [tongjiPenggangInfo_count, hpai, hids]
  change (if ((pai.count : Int) + pg.count) ≠ baseShouPaiNum self ∨ huaSeCount pai pg > 2 then _
    else if ∃ que ∈ mustQue, huaSeOf (huaSe pai pg) que > 0 then _ else _) = _
  by_cases h2 : huaSeCount pai pg > 2
  · rw [if_pos (.inr h2), if_pos (.inl h2)]
  · rw [if_neg (not_or.mpr ⟨not_not.mpr hcount, h2⟩)]
    by_cases hque : ∃ que ∈ mustQue, huaSeOf (huaSe pai pg) que > 0
    · rw [if_pos hque, if_pos (.inr hque)]
    · have hpass : ¬ Refused pai pg mustQue := not_or.mpr ⟨h2, hque⟩
      rw [if_neg hque, if_neg hpass]
      rfl

theorem exists_shown_add_iff (pai : PaiMap) (pg : PgMap) (hs : s ∈ paiIds) (c : Nat) :
    (∃ t ∈ paiIds, Shown (pai.add s) pg t ∧ flower t = c) ↔
      flower s = c ∨ ∃ t ∈ paiIds, Shown pai pg t ∧ flower t = c := by
  constructor
  · rintro ⟨t, ht, hshown, rfl⟩
    by_cases hts : t = s
    · exact .inl (by rw [hts])
    · rw [Shown, num_add, if_neg hts] at hshown
      exact .inr ⟨t, ht, hshown, rfl⟩
  · rintro (rfl | ⟨t, ht, hshown, rfl⟩)
    · refine ⟨s, hs, .inl ?_, rfl⟩
      rw [num_add, if_pos rfl]
      exact Nat.succ_ne_zero _
    · refine ⟨t, ht, hshown.imp_left fun hne => ?_, rfl⟩
      rw [num_add]
      split
      · exact Nat.succ_ne_zero _
      · exact hne

theorem huaSeOf_le_add (hpai : pai.Tiles) (hpg : pg.Tiles) (hs : s ∈ paiIds) (c : Nat) :
    huaSeOf (huaSe pai pg) c ≤ huaSeOf (huaSe (pai.add s) pg) c := by
  rw [huaSeOf_huaSe hpai hpg, huaSeOf_huaSe (Tiles.add hpai hs) hpg]
  have hiff := exists_shown_add_iff pai pg hs c
  split
  · next h => rw [if_pos (hiff.mpr (.inr h))]
  · exact Nat.zero_le _

theorem huaSeOf_add (hpai : pai.Tiles) (hpg : pg.Tiles) (hs : s ∈ paiIds)
    (hsuit : ∃ t ∈ paiIds, pai.num t ≠ 0 ∧ flower t = flower s) (c : Nat) :
    huaSeOf (huaSe (pai.add s) pg) c = huaSeOf (huaSe pai pg) c := by
  rw [huaSeOf_huaSe hpai hpg, huaSeOf_huaSe (Tiles.add hpai hs) hpg]
  have hiff := exists_shown_add_iff pai pg hs c
  congr 1
  rw [hiff]
  refine propext (or_iff_right_of_imp ?_)
  rintro rfl
  obtain ⟨t, ht, hne, hflower⟩ := hsuit
  exact ⟨t, ht, .inl hne, hflower⟩

theorem Refused.add {mustQue : Option Nat} (h : Refused pai pg mustQue) (hpai : pai.Tiles)
    (hpg : pg.Tiles) (hs : s ∈ paiIds) : Refused (pai.add s) pg mustQue := by
  have hle := huaSeOf_le_add hpai hpg hs
  rcases h with h | ⟨que, hque, h⟩
  · refine .inl (h.trans_le ?_)
    exact Nat.add_le_add (Nat.add_le_add (hle 1) (hle 2)) (hle 3)
  · exact .inr ⟨que, hque, h.trans_le (hle que)⟩

theorem huaSeCount_add (hpai : pai.Tiles) (hpg : pg.Tiles) (hs : s ∈ paiIds)
    (hsuit : ∃ t ∈ paiIds, pai.num t ≠ 0 ∧ flower t = flower s) :
    huaSeCount (pai.add s) pg = huaSeCount pai pg := by
  simp only [huaSeCount, huaSeOf_add hpai hpg hs hsuit]

theorem refused_add_iff {mustQue : Option Nat} (hpai : pai.Tiles) (hpg : pg.Tiles)
    (hs : s ∈ paiIds) (hsuit : ∃ t ∈ paiIds, pai.num t ≠ 0 ∧ flower t = flower s) :
    Refused (pai.add s) pg mustQue ↔ Refused pai pg mustQue := by
  simp only [Refused, huaSeCount_add hpai hpg hs hsuit, huaSeOf_add hpai hpg hs hsuit]

/-! ## The loop -/

theorem tryTing_eq (self : Algorithm) (pai : PaiMap) (pg : PgMap) (huaSeCount s : Nat) :
    tryTing self pg huaSeCount s pai =
      if pai.num s > 1 ∨ checkHaveLianzi pai s then
        computeHupaiInfo pai pg pai.count huaSeCount self.kaiguan self.multiTypes
          self.maxShouPaiNum
      else some none := by
  unfold tryTing
  dsimp only
  rw [Port.tongjiPaiInfo_count]
  rfl

theorem tryTing_congr (self : Algorithm) (hpai : pai.Tiles) (hpai' : pai'.Tiles)
    (hnum : ∀ s, pai.num s = pai'.num s) (hpg : pg.Tiles) (huaSeCount s : Nat) :
    tryTing self pg huaSeCount s pai = tryTing self pg huaSeCount s pai' := by
  have hlianzi : checkHaveLianzi pai s = checkHaveLianzi pai' s := by
    simp only [checkHaveLianzi, hnum]
  rw [tryTing_eq, tryTing_eq, hlianzi, hnum s,
    computeHupaiInfo_congr hpai hpai' hnum hpg huaSeCount]

theorem exists_tryTing (self : Algorithm) (hpai : pai.Tiles) (hpg : pg.Tiles)
    (huaSeCount s : Nat) : ∃ res, tryTing self pg huaSeCount s pai = some res := by
  rw [tryTing_eq]
  split
  · obtain ⟨type, hres, -⟩ := computeHupaiInfo_spec self.kaiguan self.multiTypes hpai
      hpg huaSeCount self.maxShouPaiNum
    exact ⟨_, hres⟩
  · exact ⟨none, rfl⟩

theorem foldlM_tingStep (self : Algorithm) (hpai : pai.Tiles) (hpg : pg.Tiles)
    (huaSeCount : Nat) (l : List Nat) (hl : ∀ s ∈ l, s ∈ paiIds) :
    ∀ (copy : PaiMap) (list : List TingInfo), copy.Tiles → (∀ s, copy.num s = pai.num s) →
      ∃ st, l.foldlM (tingStep self pg huaSeCount) (copy, list) = some st ∧
        ∀ t, t ∈ st.2 ↔ t ∈ list ∨ t.tingPai ∈ l ∧
          tryTing self pg huaSeCount t.tingPai (pai.add t.tingPai) = some (some t.info) := by
  induction l with
  | nil =>
      intro copy list _ _
      refine ⟨_, rfl, fun t => ?_⟩
      simp
  | cons s l ih =>
      intro copy list hcopy hnum
      have hs := hl s List.mem_cons_self
      have hadd : ∀ k, (copy.add s).num k = (pai.add s).num k := by
        intro k
        rw [num_add, num_add, hnum, hnum]
      have hback : ∀ k, ((copy.add s).drop s).num k = pai.num k := by
        intro k
        rw [num_drop, num_add, num_add, if_pos rfl, ← hnum k]
        split
        · next h => rw [h, Nat.add_sub_cancel]
        · rfl
      have htry := tryTing_congr self (Tiles.add hcopy hs) (Tiles.add hpai hs) hadd hpg huaSeCount s
      obtain ⟨res, hres⟩ := exists_tryTing self (Tiles.add hpai hs) hpg huaSeCount s
      obtain ⟨st, hst, hmem⟩ := ih (fun k hk => hl k (List.mem_cons_of_mem s hk))
        ((copy.add s).drop s) (list ++ (res.map (TingInfo.mk s)).toList)
        (Tiles.drop (Tiles.add hcopy hs) hs) hback
      refine ⟨st, ?_, fun t => ?_⟩
      · rw [List.foldlM_cons, tingStep, htry, hres]
        exact hst
      · have hone : t ∈ (res.map (TingInfo.mk s)).toList ↔ t.tingPai = s ∧
            tryTing self pg huaSeCount t.tingPai (pai.add t.tingPai) = some (some t.info) := by
          rw [Option.mem_toList, Option.map_eq_some_iff]
          obtain ⟨tingPai, info⟩ := t
          constructor
          · rintro ⟨info', hinfo, hmk⟩
            obtain ⟨rfl, rfl⟩ := TingInfo.mk.inj hmk
            exact ⟨rfl, hres.trans (congrArg some hinfo)⟩
          · rintro ⟨rfl, hinfo⟩
            exact ⟨info, Option.some.inj (hres.symm.trans hinfo), rfl⟩
        rw [hmem, List.mem_append, hone, List.mem_cons, or_assoc, ← or_and_right]

theorem getTingInfo_spec (self : Algorithm) (hpai : pai.Tiles) (hpg : pg.Tiles)
    {mustQue : Option Nat} (hcount : (pai.count + pg.count : Int) = baseShouPaiNum self)
    (hpass : ¬ Refused pai pg mustQue) :
    ∃ list, getTingInfo self pai pg mustQue = some list ∧
      ∀ t, t ∈ list.getD [] ↔ t.tingPai ∈ paiIds ∧
        tryTing self pg (huaSeCount pai pg) t.tingPai (pai.add t.tingPai) = some (some t.info) := by
  obtain ⟨st, hst, hmem⟩ := foldlM_tingStep self hpai hpg (huaSeCount pai pg) paiIds
    (fun s hs => hs) pai [] hpai fun s => rfl
  rw [getTingInfo_eq self hcount, if_neg hpass, hst]
  refine ⟨_, rfl, fun t => ?_⟩
  have hlist : (if st.2 = [] then none else some st.2).getD [] = st.2 := by
    split
    · next h => exact h.symm
    · rfl
  rw [hlist, hmem]
  simp

/-- The waits are the tiles that make a win: `get_ting_info` lists a tile with a win exactly if
`get_hupai_info` has this win for the hand with the tile. -/
theorem getTingInfo_agrees (self : Algorithm) (pai : PaiMap) (pg : PgMap) (hpai : pai.Tiles)
    (hpg : pg.Tiles) (mustQue : Option Nat)
    (hcount : (pai.count + pg.count : Int) = baseShouPaiNum self) :
    ∃ list, getTingInfo self pai pg mustQue = some list ∧
      (∀ t ∈ list.getD [], t.tingPai ∈ paiIds) ∧
      ∀ s ∈ paiIds, ∃ win, self.getHupaiInfo (pai.add s) pg mustQue = some win ∧
        ∀ info, ⟨s, info⟩ ∈ list.getD [] ↔ win = some info := by
  have hmax : ∀ s ∈ paiIds, ((pai.add s).count + pg.count : Int) = self.maxShouPaiNum := by
    intro s hs
    rw [count_add hpai hs]
    unfold baseShouPaiNum at hcount
    push_cast
    omega
  by_cases hrefused : Refused pai pg mustQue
  · refine ⟨none, ?_, ?_, ?_⟩
    · rw [getTingInfo_eq self hcount, if_pos hrefused]
    · intro t ht
      exact absurd ht List.not_mem_nil
    · intro s hs
      refine ⟨none, ?_, fun info => ?_⟩
      · rw [getHupaiInfo_eq self (hmax s hs), if_pos (hrefused.add hpai hpg hs)]
      · simp
  · obtain ⟨list, hlist, hmem⟩ := getTingInfo_spec self hpai hpg hcount hrefused
    refine ⟨list, hlist, fun t ht => ((hmem t).mp ht).1, fun s hs => ?_⟩
    have hadd := Tiles.add hpai hs
    have htry := tryTing_eq self (pai.add s) pg (huaSeCount pai pg) s
    rw [getHupaiInfo_eq self (hmax s hs)]
    by_cases hfilter : (pai.add s).num s > 1 ∨ checkHaveLianzi (pai.add s) s = true
    · have hsuit := suit_of_filter hpai hs hfilter
      rw [if_pos hfilter, ← huaSeCount_add hpai hpg hs hsuit] at htry
      obtain ⟨res, hres⟩ := exists_tryTing self hadd hpg (huaSeCount (pai.add s) pg) s
      refine ⟨res, ?_, fun info => ?_⟩
      · rw [if_neg (mt (refused_add_iff hpai hpg hs hsuit).mp hrefused), ← htry, hres]
      · rw [hmem, ← huaSeCount_add hpai hpg hs hsuit, hres]
        simp [hs]
    · -- a tile that is alone makes no win
      rw [if_neg hfilter] at htry
      refine ⟨none, ?_, fun info => ?_⟩
      · obtain ⟨type, hres, hnone, -⟩ := computeHupaiInfo_spec self.kaiguan
          self.multiTypes hadd hpg (huaSeCount (pai.add s) pg) self.maxShouPaiNum
        have hone : (pai.add s).num s = 1 := by
          have := num_add pai s s
          rw [if_pos rfl] at this
          omega
        have halone := Bool.eq_false_of_not_eq_true fun h => hfilter (.inr h)
        rw [hres, hnone.mpr (not_reads_of_alone hadd hone halone)]
        exact ite_self _
      · rw [hmem, htry]
        simp

def tripletHand : PaiMap := [⟨11, 4⟩, ⟨22, 3⟩, ⟨25, 3⟩, ⟨28, 3⟩].toAList

theorem getTingInfo_agrees_triplets :
    ∃ list, getTingInfo Port.erRen13 tripletHand ∅ none = some list ∧
      (∀ t ∈ list.getD [], t.tingPai ∈ paiIds) ∧
      ∀ s ∈ paiIds, ∃ win, Port.erRen13.getHupaiInfo (tripletHand.add s) ∅ none = some win ∧
        ∀ info, ⟨s, info⟩ ∈ list.getD [] ↔ win = some info :=
  getTingInfo_agrees Port.erRen13 tripletHand ∅ (by decide) (by decide) none (by decide)

/-! ## Who holds the tile -/

def WaitsFor (self : Algorithm) (pai : PaiMap) (pg : PgMap) (mustQue : Option Nat) (s : Nat) :
    Prop :=
  (pai.count + pg.count : Int) = baseShouPaiNum self ∧ ¬ Refused pai pg mustQue ∧ s ∈ paiIds ∧
    ∃ r, Reads self.kaiguan (pai.add s) pg self.maxShouPaiNum r

theorem getTingInfo_waitsFor (self : Algorithm) (hpai : pai.Tiles) (hpg : pg.Tiles)
    (mustQue : Option Nat) :
    ∃ list, getTingInfo self pai pg mustQue = some list ∧
      ∀ s, (∃ t ∈ list.getD [], t.tingPai = s) ↔ WaitsFor self pai pg mustQue s := by
  by_cases hcount : (pai.count + pg.count : Int) = baseShouPaiNum self
  · by_cases hrefused : Refused pai pg mustQue
    · refine ⟨none, ?_, fun s => ?_⟩
      · rw [getTingInfo_eq self hcount, if_pos hrefused]
      · simp [WaitsFor, hrefused]
    · obtain ⟨list, hlist, hmem⟩ := getTingInfo_spec self hpai hpg hcount hrefused
      refine ⟨list, hlist, fun s => ?_⟩
      have hreads : s ∈ paiIds → ((∃ info, tryTing self pg (huaSeCount pai pg) s (pai.add s) =
          some (some info)) ↔ ∃ r, Reads self.kaiguan (pai.add s) pg self.maxShouPaiNum r) := by
        intro hs
        have hadd := Tiles.add hpai hs
        obtain ⟨type, hres, hnone, -⟩ := computeHupaiInfo_spec self.kaiguan
          self.multiTypes hadd hpg (huaSeCount pai pg) self.maxShouPaiNum
        rw [tryTing_eq]
        split
        · rw [hres, ← not_iff_not, not_exists (p := fun r => Reads _ _ _ _ r), ← hnone]
          cases type <;> simp
        · next hfilter =>
            have hone : (pai.add s).num s = 1 := by
              have := num_add pai s s
              rw [if_pos rfl] at this
              omega
            have halone := Bool.eq_false_of_not_eq_true fun h => hfilter (.inr h)
            have hno : ∀ r, ¬ Reads self.kaiguan (pai.add s) pg self.maxShouPaiNum r :=
              not_reads_of_alone hadd hone halone
            simp [hno]
      constructor
      · rintro ⟨⟨s, info⟩, ht, rfl⟩
        obtain ⟨hs, hinfo⟩ := (hmem _).mp ht
        exact ⟨hcount, hrefused, hs, (hreads hs).mp ⟨info, hinfo⟩⟩
      · rintro ⟨-, -, hs, hr⟩
        obtain ⟨info, hinfo⟩ := (hreads hs).mpr hr
        exact ⟨⟨s, info⟩, (hmem _).mpr ⟨hs, hinfo⟩, rfl⟩
  · refine ⟨none, ?_, fun s => ?_⟩
    · have hcount' : ((pai.count : Int) + pg.count) ≠ baseShouPaiNum self := hcount
      unfold getTingInfo
      dsimp only
      rw [tongjiPenggangInfo_count, Port.tongjiPaiInfo_count]
      exact if_pos (.inl hcount')
    · simp [WaitsFor, hcount]

def copies (pai : PaiMap) (pg : PgMap) (s : Nat) : Nat :=
  pai.num s +
    match pg.lookup s with
    | none => 0
    | some .peng => 3
    | some _ => 4

/-- The result of `get_max_ting_all_info`. -/
structure MaxTingInfo where
  tingPai : Nat
  huPai : Nat
  huTypeInfo : HashTable Fan Int
  mul : Int
  total : ℚ
  gengNum : Int

def maxMul (list : List TingInfo) : Option TingInfo :=
  list.foldl
    (fun best v =>
      match best with
      | none => some v
      | some b => if v.info.mul > b.info.mul then some v else some b) none

def fengFan (maxFan : Option Int) (v : TingInfo) : MaxTingInfo where
  tingPai := v.tingPai
  huPai := v.tingPai
  huTypeInfo := v.info.huTypeInfo
  mul :=
    match maxFan with
    | none => v.info.mul
    | some m => min v.info.mul m
  total :=
    match maxFan with
    | none => 2 ^ v.info.mul
    | some m => min (2 ^ v.info.mul) (2 ^ m)
  gengNum := v.info.gengNum

def getMaxTingAllInfo (self : Algorithm) (maxFan : Option Int) (pai : PaiMap) (pg : PgMap)
    (mustQue : Option Nat) : Option (Option MaxTingInfo) :=
  (getTingInfo self pai pg mustQue).map fun list =>
    (list.bind maxMul).map (fengFan maxFan)

theorem maxMul_mem {list : List TingInfo} {v : TingInfo} (h : maxMul list = some v) : v ∈ list := by
  have hfold : ∀ (l : List TingInfo) (best : Option TingInfo), (∀ b ∈ best, b ∈ list) →
      l ⊆ list → ∀ b ∈ l.foldl (fun best v =>
        match best with
        | none => some v
        | some b => if v.info.mul > b.info.mul then some v else some b) best, b ∈ list := by
    intro l
    induction l with
    | nil => exact fun best hbest _ => hbest
    | cons u l ih =>
        intro best hbest hl
        have hu := hl List.mem_cons_self
        refine ih _ ?_ fun x hx => hl (List.mem_cons_of_mem u hx)
        cases best with
        | none =>
            intro b hb
            exact Option.some.inj hb ▸ hu
        | some b =>
            dsimp only
            split
            · intro b' hb
              exact Option.some.inj hb ▸ hu
            · exact hbest
  exact hfold list none (fun b hb => absurd hb (by simp)) (List.Subset.refl _) v h

theorem layout_of_copies (self : Algorithm)
    (hcount : (pai.count + pg.count : Int) = baseShouPaiNum self) (hpai : pai.Tiles)
    (hs : s ∈ paiIds) (hcopies : copies pai pg s = 4) {r : Reading}
    (h : Reads kaiguan (pai.add s) pg self.maxShouPaiNum r) : ∃ l, Layout (pai.add s).num 1 l := by
  obtain ⟨l, kind⟩ | _ := r
  · exact ⟨l, h.1⟩
  · obtain ⟨-, hall, hpairs⟩ := h
    -- seven pairs leave no room for melds, so the four are in the hand
    rw [count_add hpai hs] at hall
    unfold baseShouPaiNum PgMap.count at hcount
    have hlen : pg.entries.length = 0 := by
      push_cast at hall hcount
      omega
    have hempty : pg.lookup s = none :=
      List.dlookup_eq_none.mpr fun hmem => by
        rw [List.keys, List.length_eq_zero_iff.mp hlen] at hmem
        exact List.not_mem_nil hmem
    have hfive := hpairs s
    rw [copies, hempty] at hcopies
    change pai.num s + 0 = 4 at hcopies
    rw [num_add, if_pos rfl] at hfive
    omega

/-- A wait is on a tile of which the player has three at the most, or has all four and a fifth
would make a layout: `get_ting_info` does not count the tiles that exist.  The tile of
`get_max_ting_all_info` is one of the waits. -/
theorem getTingInfo_copies (self : Algorithm) (maxFan : Option Int) (pai : PaiMap) (pg : PgMap)
    (hpai : pai.Tiles) (hpg : pg.Tiles) (hcopies : ∀ s ∈ paiIds, copies pai pg s ≤ 4)
    (mustQue : Option Nat) :
    ∃ list best, getTingInfo self pai pg mustQue = some list ∧
      getMaxTingAllInfo self maxFan pai pg mustQue = some best ∧
      (∀ t ∈ list.getD [], copies pai pg t.tingPai ≤ 3 ∨
        copies pai pg t.tingPai = 4 ∧ ∃ l, Layout (pai.add t.tingPai).num 1 l) ∧
      (∀ s ∈ paiIds, copies pai pg s = 4 → (∃ l, Layout (pai.add s).num 1 l) →
        (pai.count + pg.count : Int) = baseShouPaiNum self → ¬ Refused pai pg mustQue →
        ∃ t ∈ list.getD [], t.tingPai = s) ∧
      ∀ m ∈ best, ∃ t ∈ list.getD [], t.tingPai = m.huPai := by
  obtain ⟨list, hlist, hwaits⟩ := getTingInfo_waitsFor self hpai hpg mustQue
  refine ⟨list, _, hlist, by rw [getMaxTingAllInfo, hlist]; rfl, ?_, ?_, ?_⟩
  · intro t ht
    obtain ⟨hcount, -, hs, r, hr⟩ := (hwaits t.tingPai).mp ⟨t, ht, rfl⟩
    have hle := hcopies _ hs
    by_cases hthree : copies pai pg t.tingPai ≤ 3
    · exact .inl hthree
    · have hfour : copies pai pg t.tingPai = 4 := by omega
      exact .inr ⟨hfour, layout_of_copies self hcount hpai hs hfour hr⟩
  · rintro s hs - ⟨l, hl⟩ hcount hpass
    exact (hwaits s).mpr ⟨hcount, hpass, hs, .layout l .plain, hl, trivial⟩
  · intro m hm
    obtain ⟨v, hv, rfl⟩ := Option.map_eq_some_iff.mp hm
    cases list with
    | none => cases hv
    | some list => exact ⟨v, maxMul_mem hv, rfl⟩

theorem getTingInfo_copies_triplets :
    ∃ list best, getTingInfo Port.erRen13 tripletHand ∅ none = some list ∧
      getMaxTingAllInfo Port.erRen13 (some 3) tripletHand ∅ none = some best ∧
      (∀ t ∈ list.getD [], copies tripletHand ∅ t.tingPai ≤ 3 ∨
        copies tripletHand ∅ t.tingPai = 4 ∧ ∃ l, Layout (tripletHand.add t.tingPai).num 1 l) ∧
      (∀ s ∈ paiIds, copies tripletHand ∅ s = 4 → (∃ l, Layout (tripletHand.add s).num 1 l) →
        (tripletHand.count + PgMap.count ∅ : Int) = baseShouPaiNum Port.erRen13 →
        ¬ Refused tripletHand ∅ none → ∃ t ∈ list.getD [], t.tingPai = s) ∧
      ∀ m ∈ best, ∃ t ∈ list.getD [], t.tingPai = m.huPai :=
  getTingInfo_copies Port.erRen13 (some 3) tripletHand ∅ (by decide) (by decide) (by decide) none

/-- The only wait is on a tile that the player has four times. -/
theorem ting_on_fifth :
    tripletHand.Tiles ∧ (∀ s ∈ paiIds, copies tripletHand ∅ s ≤ 4) ∧
      (tripletHand.count + PgMap.count ∅ : Int) = baseShouPaiNum Port.erRen13 ∧
      copies tripletHand ∅ 11 = 4 ∧
      (getTingInfo Port.erRen13 tripletHand ∅ none).map (·.map (·.map TingInfo.tingPai)) =
        some (some [11]) ∧
      (getMaxTingAllInfo Port.erRen13 none tripletHand ∅ none).map
        (·.map MaxTingInfo.huPai) = some (some 11) := by
  refine ⟨by decide, by decide, by decide, by decide, by decide +kernel, by decide +kernel⟩

end JyQipai.Mj.Algorithm
