import JyQipai.Ddz.HintSound

/-!
# The automatic play is legal

`package` turns a combination into the card list that the room receives.  The
list holds the cards the combination asks for, so `get_pai_type` classifies it
as the generators promise, and the play beats the last one.
-/

namespace JyQipai.Ddz

/-! ## The ids of a rank -/

private theorem idTables :
    (∀ id < 55, ∀ r < 18, 3 ≤ r → (id ∈ idsOfType r ↔ paiMap id = r)) ∧
      (∀ r < 18, ∀ id ∈ idsOfType r, id < 55) ∧
      (∀ id < 55, 1 ≤ id → paiMap id ∈ paiRanks) ∧
      ∀ r < 16, 3 ≤ r →
        1 ≤ paiToEndIdMap r ∧ paiToEndIdMap r ≤ 52 ∧ paiMap (paiToEndIdMap r) = r := by
  refine ⟨by decide +kernel, by decide +kernel, by decide +kernel, by decide +kernel⟩

theorem paiMap_eq_zero {id : Nat} (h : 55 ≤ id) : paiMap id = 0 := by
  rw [paiMap, List.getD_eq_getElem?_getD, List.getElem?_eq_none, Option.getD_none]
  simpa [paiMapTable] using h

theorem mem_idsOfType {id r : Nat} (hr : r ∈ paiRanks) :
    id ∈ idsOfType r ↔ paiMap id = r := by
  obtain ⟨h3, h17⟩ := mem_paiRanks.mp hr
  by_cases hid : id < 55
  · exact idTables.1 id hid r (by omega) h3
  · constructor
    · intro h
      exact absurd (idTables.2.1 r (by omega) id h) hid
    · intro h
      rw [paiMap_eq_zero (by omega)] at h
      omega

theorem paiRanks_nodup : paiRanks.Nodup := List.nodup_range'

theorem idsOfType_nodup (r : Nat) : (idsOfType r).Nodup := List.nodup_range'

theorem paiMap_mem_paiRanks {id : Nat} (h1 : 1 ≤ id) (h54 : id ≤ 54) :
    paiMap id ∈ paiRanks :=
  idTables.2.2.1 id (by omega) h1

theorem length_filter_idsOfType (hand : Finset Nat) {r : Nat}
    (hr : r ∈ paiRanks) :
    ((idsOfType r).filter (· ∈ hand)).length = getPaiTypeHash hand r := by
  rw [getPaiTypeHash, ← List.toFinset_card_of_nodup ((idsOfType_nodup r).filter _)]
  congr 1
  ext id
  simp [mem_idsOfType hr, and_comm]

/-! ## Counting by rank -/

theorem countP_flatMap {f : Nat → List Nat} {l : List Nat}
    (hl : l.Nodup) (hf : ∀ r ∈ l, ∀ id ∈ f r, paiMap id = r) (r : Nat) :
    (l.flatMap f).countP (fun id => paiMap id = r) =
      if r ∈ l then (f r).length else 0 := by
  induction l with
  | nil => rfl
  | cons a l ih =>
      have hnot := (List.nodup_cons.mp hl).1
      rw [List.flatMap_cons, List.countP_append,
        ih (List.nodup_cons.mp hl).2 fun r hr => hf r (List.mem_cons_of_mem _ hr)]
      have ha := hf a List.mem_cons_self
      by_cases hra : r = a
      · subst hra
        rw [List.countP_eq_length.mpr fun id hid => by simpa using ha id hid]
        simp [hnot]
      · rw [List.countP_eq_zero.mpr fun id hid => by
          simpa [ha id hid] using Ne.symm hra]
        simp [hra]

theorem sortPaiByAmount_congr {f g : Nat → Nat}
    (h : ∀ r ∈ paiRanks, f r = g r) : sortPaiByAmount f = sortPaiByAmount g := by
  have hcounts : paiCounts f = paiCounts g := by
    rw [paiCounts, paiCounts, List.filter_congr fun r hr => by rw [h r hr]]
    refine List.map_congr_left fun r hr => ?_
    rw [h r (List.mem_filter.mp hr).1]
  rw [sortPaiByAmount, hcounts, sortPaiByAmount]

section Package

variable {hand : Finset Nat} {lzType lz : Nat} {use : UseInfo}

theorem norIds_getCpListByUseInfo :
    (getCpListByUseInfo hand use).norIds =
      paiRanks.flatMap fun r => getPaiListByType hand r (use.nor r) := by
  simp only [getCpListByUseInfo, CpList.norIds]
  split
  · next h => rw [h]; rfl
  · rfl

theorem lzIds_getCpListByUseInfo :
    (getCpListByUseInfo hand use).lzIds =
      paiRanks.flatMap fun r => List.replicate (use.lz r) (paiToEndIdMap r) := by
  simp only [getCpListByUseInfo, CpList.lzIds]
  split
  · next h => rw [h]; rfl
  · rfl

theorem mem_getPaiListByType {r num id : Nat} (hr : r ∈ paiRanks)
    (h : id ∈ getPaiListByType hand r num) : id ∈ hand ∧ paiMap id = r := by
  have hmem := List.mem_of_mem_take h
  rw [List.mem_filter, mem_idsOfType hr] at hmem
  exact ⟨by simpa using hmem.2, hmem.1⟩

theorem length_getPaiListByType {r num : Nat} (hr : r ∈ paiRanks)
    (h : num ≤ getPaiTypeHash hand r) :
    (getPaiListByType hand r num).length = num := by
  rw [getPaiListByType, List.length_take, length_filter_idsOfType hand hr]
  exact min_eq_left h

theorem UseInfo.Fits.nor_le_hash (hfits : use.Fits (paiTypeMapOf hand lzType) lz)
    (r : Nat) : use.nor r ≤ getPaiTypeHash hand r := by
  refine (hfits.nor_le r).trans ?_
  rw [paiTypeMapOf, Function.update_apply]
  split <;> simp

theorem norIds_mem (hfits : use.Fits (paiTypeMapOf hand lzType) lz) {id : Nat}
    (hid : id ∈ (getCpListByUseInfo hand use).norIds) :
    id ∈ hand ∧ paiMap id ≠ lzType := by
  rw [norIds_getCpListByUseInfo, List.mem_flatMap] at hid
  obtain ⟨r, hr, hid⟩ := hid
  obtain ⟨hmem, hrank⟩ := mem_getPaiListByType hr hid
  refine ⟨hmem, fun h => ?_⟩
  -- no ordinary card of the wildcard rank is ever counted
  have hzero : use.nor r = 0 := by
    have := hfits.nor_le r
    rw [← hrank, h, paiTypeMapOf, Function.update_self] at this
    rw [← hrank, h]
    omega
  rw [hzero] at hid
  simp [getPaiListByType] at hid

theorem norIds_nodup : (getCpListByUseInfo hand use).norIds.Nodup := by
  rw [norIds_getCpListByUseInfo, List.nodup_flatMap]
  refine ⟨fun r _ => ((idsOfType_nodup r).filter _).take, ?_⟩
  refine paiRanks_nodup.imp_of_mem ?_
  intro a b ha hb hab id hida hidb
  exact hab ((mem_getPaiListByType ha hida).2.symm.trans
    (mem_getPaiListByType hb hidb).2)

theorem length_lzIds :
    (getCpListByUseInfo hand use).lzIds.length = cardSum use.lz := by
  rw [lzIds_getCpListByUseInfo, List.length_flatMap, cardSum]
  simp

theorem lzIds_rank {phash : Nat → Nat} (hfits : use.Fits phash lz) {r id : Nat}
    (hid : id ∈ List.replicate (use.lz r) (paiToEndIdMap r)) :
    1 ≤ id ∧ id ≤ 52 ∧ paiMap id = r := by
  obtain ⟨hne, rfl⟩ := List.mem_replicate.mp hid
  obtain ⟨h3, h15⟩ := hfits.lz_range r hne
  exact idTables.2.2.2 r (by omega) h3

theorem mergeNorAndLz_useInfo {phash : Nat → Nat} (hfits : use.Fits phash lz) :
    mergeNorAndLz (some (getCpListByUseInfo hand use)) =
      some ((getCpListByUseInfo hand use).norIds ++
        (getCpListByUseInfo hand use).lzIds) := by
  rw [mergeNorAndLz, if_neg]
  rw [Bool.not_eq_true, List.any_eq_false]
  intro id hid
  rw [lzIds_getCpListByUseInfo, List.mem_flatMap] at hid
  obtain ⟨r, -, hid⟩ := hid
  have := lzIds_rank hfits hid
  simp only [Bool.or_eq_true, decide_eq_true_eq, not_or]
  omega

theorem countP_package (hfits : use.Fits (paiTypeMapOf hand lzType) lz) {r : Nat}
    (hr : r ∈ paiRanks) :
    ((getCpListByUseInfo hand use).norIds ++
      (getCpListByUseInfo hand use).lzIds).countP (fun id => paiMap id = r) =
      use.total r := by
  rw [List.countP_append, norIds_getCpListByUseInfo, lzIds_getCpListByUseInfo,
    countP_flatMap paiRanks_nodup fun r hr id hid => (mem_getPaiListByType hr hid).2,
    countP_flatMap paiRanks_nodup fun r _ id hid => (lzIds_rank hfits hid).2.2]
  rw [if_pos hr, if_pos hr, List.length_replicate,
    length_getPaiListByType hr (hfits.nor_le_hash r), UseInfo.total]

theorem getPaiType_package (hfits : use.Fits (paiTypeMapOf hand lzType) lz)
    {p : PaiType}
    (hp : paiTypeOfCounts (cardSum use.lz) (sortPaiByAmount use.total) = some p) :
    getPaiType ((getCpListByUseInfo hand use).norIds ++
      (getCpListByUseInfo hand use).lzIds) (cardSum use.lz) = some (some p) := by
  have hcount := fun r (hr : r ∈ paiRanks) => countP_package hfits hr
  set l := (getCpListByUseInfo hand use).norIds ++
    (getCpListByUseInfo hand use).lzIds with hl
  have hne : l ≠ [] := by
    intro hnil
    have hnone : paiTypeOfCounts (cardSum use.lz) (sortPaiByAmount fun _ => 0) =
        some p := by
      rw [← hp]
      congr 1
      refine sortPaiByAmount_congr fun r hr => ?_
      rw [← hcount r hr, hnil, List.countP_nil]
    exact absurd hnone (by simp [sortPaiByAmount, paiCounts, paiTypeOfCounts])
  have hany : l.any (fun id => paiMap id = 0) = false := by
    rw [List.any_eq_false]
    intro id hid
    rw [hl, List.mem_append, norIds_getCpListByUseInfo, lzIds_getCpListByUseInfo,
      List.mem_flatMap, List.mem_flatMap] at hid
    have hrank : paiMap id ∈ paiRanks := by
      rcases hid with ⟨r, hr, hid⟩ | ⟨r, hr, hid⟩
      · rwa [(mem_getPaiListByType hr hid).2]
      · rwa [(lzIds_rank hfits hid).2.2]
    have := (mem_paiRanks.mp hrank).1
    simp only [decide_eq_true_eq]
    omega
  rw [getPaiType, if_neg hne, getPaiTypeHashByList, if_neg (by simp [hany]),
    Option.map_some, ← hp]
  congr 2
  exact sortPaiByAmount_congr hcount

end Package

/-! ## The chosen play beats the last one -/

theorem handCount_of_hand {hand : Finset Nat} {lzNum lzType : Nat}
    (hhand : ∀ id ∈ hand, 1 ≤ id ∧ id ≤ 54)
    (hlz : 0 < lzNum → 3 ≤ lzType ∧ lzType ≤ 15) :
    HandCount (paiTypeMapOf hand lzType) lzNum lzType := by
  have hle : ∀ r, paiTypeMapOf hand lzType r ≤ getPaiTypeHash hand r := by
    intro r
    rw [paiTypeMapOf, Function.update_apply]
    split <;> simp
  have hsupport : ∀ r, paiTypeMapOf hand lzType r ≠ 0 → r ∈ paiRanks := by
    intro r hne
    have hpos : getPaiTypeHash hand r ≠ 0 := by
      have := hle r
      omega
    rw [getPaiTypeHash, Finset.card_ne_zero] at hpos
    obtain ⟨id, hid⟩ := hpos
    obtain ⟨hmem, rfl⟩ := Finset.mem_filter.mp hid
    exact paiMap_mem_paiRanks (hhand id hmem).1 (hhand id hmem).2
  refine ⟨fun r hne => mem_paiRanks.mp (hsupport r hne), ?_, hlz⟩
  intro r h16
  by_cases hr : r ∈ paiRanks
  · refine (hle r).trans ?_
    rw [← length_filter_idsOfType hand hr]
    refine (List.length_filter_le _ _).trans ?_
    have := (mem_paiRanks.mp hr).2
    interval_cases r <;> decide
  · have := mt (hsupport r) hr
    omega

theorem sameTypeCombination_sound {phash : Nat → Nat} {lzNum lzType : Nat}
    {q : PaiType} {c : Combo} (hhand : HandCount phash lzNum lzType)
    (hq : q.Wf) (hq0 : q.type ≠ 0)
    (h : sameTypeCombination phash lzNum lzType q.type q.pai = some c) :
    c.Sound phash lzNum ∧ c.type = q.type ∧ q.key < c.play.key ∧
      (isRunType q.type →
        c.play.runEnd + 1 = c.play.key + (q.runEnd + 1 - q.key)) := by
  obtain ⟨rest, hpai⟩ := hq.pai_cons hq0
  have hkey := hq.key_ge hq0
  have hstart : startPos q.pai = q.key + 1 := by rw [hpai, startPos]
  have hlx : q.pai.getD 1 0 + 1 - q.pai.getD 0 0 = q.runEnd + 1 - q.key := rfl
  simp only [sameTypeCombination, hstart, hlx] at h
  have hrun : isRunType q.type → q.key < q.runEnd := hq.run
  have hnorun : ∀ n, q.type = n → isRunType n = false →
      isRunType q.type → c.play.runEnd + 1 =
        c.play.key + (q.runEnd + 1 - q.key) := by
    intro n hn hfalse hrun
    rw [hn, hfalse] at hrun
    cases hrun
  split at h
  case h_1 _ ht =>
    have hc := getDpOrDzCombination_sound hhand (by decide) (by decide) h
    exact ⟨hc.1, hc.2.1.trans ht.symm, hc.2.2, hnorun _ ht rfl⟩
  case h_2 _ ht =>
    have hc := getDpOrDzCombination_sound hhand (by decide) (by decide) h
    exact ⟨hc.1, hc.2.1.trans ht.symm, hc.2.2, hnorun _ ht rfl⟩
  case h_3 _ ht =>
    have hc := get3dnCombination_sound hhand (by decide) h
    exact ⟨hc.1, hc.2.1.trans ht.symm, hc.2.2, hnorun _ ht rfl⟩
  case h_4 _ ht =>
    have hc := get3dnCombination_sound hhand (by decide) h
    exact ⟨hc.1, hc.2.1.trans ht.symm, hc.2.2, hnorun _ ht rfl⟩
  case h_5 _ ht =>
    have hc := get3dnCombination_sound hhand (by decide) h
    exact ⟨hc.1, hc.2.1.trans ht.symm, hc.2.2, hnorun _ ht rfl⟩
  case h_6 _ ht =>
    have hlen := hq.shunzi ht
    have hc := getRunCombination_sound (by omega) (by omega)
      (.inl ⟨rfl, rfl, by omega⟩) h
    exact ⟨hc.1, hc.2.1.trans ht.symm, hc.2.2.1, fun _ => hc.2.2.2⟩
  case h_7 _ ht =>
    have hlen := hq.liandui ht
    have hc := getRunCombination_sound (by omega) (by omega)
      (.inr (.inl ⟨rfl, rfl, by omega⟩)) h
    exact ⟨hc.1, hc.2.1.trans ht.symm, hc.2.2.1, fun _ => hc.2.2.2⟩
  case h_8 _ ht =>
    have hc := get4dnCombination_sound hhand (.inl rfl) h
    exact ⟨hc.1, hc.2.1.trans ht.symm, hc.2.2, hnorun _ ht rfl⟩
  case h_9 _ ht =>
    have hc := get4dnCombination_sound hhand (.inr rfl) h
    exact ⟨hc.1, hc.2.1.trans ht.symm, hc.2.2, hnorun _ ht rfl⟩
  case h_10 _ ht =>
    have hlt := hrun (by rw [ht]; rfl)
    have hc := getFeijid1Combination_sound hhand (by omega) (by omega) h
    exact ⟨hc.1, hc.2.1.trans ht.symm, hc.2.2.1, fun _ => hc.2.2.2⟩
  case h_11 _ ht =>
    have hlt := hrun (by rw [ht]; rfl)
    have hc := getFeijid2Combination_sound hhand (by omega) (by omega) h
    exact ⟨hc.1, hc.2.1.trans ht.symm, hc.2.2.1, fun _ => hc.2.2.2⟩
  case h_12 _ ht =>
    have hlt := hrun (by rw [ht]; rfl)
    have hc := getRunCombination_sound (by omega) (by omega)
      (.inr (.inr ⟨rfl, rfl⟩)) h
    exact ⟨hc.1, hc.2.1.trans ht.symm, hc.2.2.1, fun _ => hc.2.2.2⟩
  case h_13 _ ht =>
    have hc := getRealZhadanCombination_sound hhand h
    exact ⟨hc.1, hc.2.1.trans ht.symm, hc.2.2, hnorun _ ht rfl⟩
  case h_14 _ ht =>
    have hc := getJiaZhadanCombination_sound hhand h
    exact ⟨hc.1, hc.2.1.trans ht.symm, hc.2.2, hnorun _ ht rfl⟩
  case h_15 => cases h

theorem chooseCombination_sound {phash : Nat → Nat} {lzNum lzType : Nat}
    {q : PaiType} {c : Combo} (hhand : HandCount phash lzNum lzType)
    (hq : q.Wf) (hq0 : q.type ≠ 0) (hq14 : q.type ≠ 14)
    (h : chooseCombination phash lzNum lzType q.type q.pai = some c) :
    c.Sound phash lzNum ∧ c.play.Beats q := by
  simp only [chooseCombination, Option.or_eq_some_iff] at h
  rcases h with h | ⟨-, h | ⟨-, h | ⟨-, h⟩⟩⟩
  · obtain ⟨hsound, htype, hkey, hrun⟩ := sameTypeCombination_sound hhand hq hq0 h
    refine ⟨hsound, .inl ⟨htype, hkey, fun hr => ?_⟩⟩
    have htype' : c.play.type = q.type := htype
    rw [htype'] at hr
    have := hrun hr
    have := hq.run hr
    omega
  · split at h
    · obtain ⟨hsound, htype, -⟩ := getJiaZhadanCombination_sound hhand h
      exact ⟨hsound, .inr (.inl ⟨htype, by omega, by omega, by omega⟩)⟩
    · cases h
  · split at h
    · obtain ⟨hsound, htype, -⟩ := getRealZhadanCombination_sound hhand h
      exact ⟨hsound, .inr (.inr (.inl ⟨htype, by omega, by omega⟩))⟩
    · cases h
  · obtain ⟨hsound, htype⟩ := getWazhaCombination_sound h
    exact ⟨hsound, .inr (.inr (.inr htype))⟩

/-! ## Soundness of `cp_hint` -/

/-- The automatic play answers a last play with cards of the hand, classified
by `get_pai_type` as announced, that beat the last play. -/
theorem cpHint_sound (kaiguan : Nat → Bool) {hand : Finset Nat}
    {lzNum lzType lastLz : Nat} {last : List Nat} {q : PaiType} {r : HintResult}
    (hhand : ∀ id ∈ hand, 1 ≤ id ∧ id ≤ 54)
    (hlz : 0 < lzNum → 3 ≤ lzType ∧ lzType ≤ 15)
    (hq : getPaiType last lastLz = some (some q))
    (hq0 : q.type ≠ 0) (hq14 : q.type ≠ 14)
    (hr : cpHint kaiguan (some (q.type, q.pai)) hand lzNum lzType = some r)
    (htype : 0 < r.type) :
    (∀ id ∈ r.cpList.norIds, id ∈ hand ∧ paiMap id ≠ lzType) ∧
      r.cpList.norIds.Nodup ∧ r.cpList.lzIds.length ≤ lzNum ∧
      (∃ ids p, r.mergeCpList = some ids ∧
        getPaiType ids r.laziNum = some (some p) ∧ p.type = r.type ∧
        p.key = (PaiType.mk r.type r.pai).key ∧
        (isRunType r.type → p.runEnd = (PaiType.mk r.type r.pai).runEnd)) ∧
      (PaiType.mk r.type r.pai).Beats q := by
  simp only [cpHint, autoChooseByType, if_neg hq14, if_neg hq0] at hr
  split at hr
  · obtain rfl := Option.some.inj hr
    exact absurd htype (lt_irrefl 0)
  next c hc =>
    split at hr
    · obtain rfl := Option.some.inj hr
      obtain ⟨hsound, hbeats⟩ := chooseCombination_sound
        (handCount_of_hand hhand hlz) (getPaiType_wf hq) hq0 hq14 hc
      obtain ⟨p, hp, hptype, hpkey, hprun⟩ := hsound.makes
      refine ⟨fun id hid => norIds_mem hsound.fits hid, norIds_nodup, ?_,
        ⟨_, p, mergeNorAndLz_useInfo hsound.fits, ?_, hptype, hpkey, hprun⟩,
        hbeats⟩
      · exact (length_lzIds).trans_le hsound.fits.lz_le
      · simp only [package, length_lzIds]
        exact getPaiType_package hsound.fits hp
    · obtain rfl := Option.some.inj hr
      exact absurd htype (lt_irrefl 0)

/-- Two fours and a wildcard answer three threes. -/
theorem cpHint_sound_triple :
    cpHint kaiguanNor (some (3, [3])) {5, 6, 49} 1 15 =
        some ⟨3, ⟨some [5, 6], some [8]⟩, some [5, 6, 8], 1, [4]⟩ ∧
      (PaiType.mk 3 [4]).Beats ⟨3, [3]⟩ := by
  have hr : cpHint kaiguanNor (some (3, [3])) {5, 6, 49} 1 15 =
      some ⟨3, ⟨some [5, 6], some [8]⟩, some [5, 6, 8], 1, [4]⟩ := by
    decide +kernel
  have hq : getPaiType [1, 2, 3] 0 = some (some ⟨3, [3]⟩) := by decide +kernel
  exact ⟨hr, (cpHint_sound kaiguanNor (by decide) (by decide) hq (by decide)
    (by decide) hr (by decide)).2.2.2.2⟩

end JyQipai.Ddz
