import JyQipai.Mj.NicePai

/-!
# The new hand is full and keeps the tiles

Each pick moves tiles from those that are left to those that are picked.  The first suit may be
picked in any way; the other two always hold enough tiles to fill the hand.
-/

namespace JyQipai.Mj.NicePai

open JyQipai.Lib

/-! ## Sums over the tiles -/

theorem paiIds_nodup : paiIds.Nodup := by decide

theorem sum_ite {l : List Nat} (hl : l.Nodup) {a : Nat} (ha : a ∈ l) (n : Int) :
    (l.map fun x => if x = a then n else 0).sum = n := by
  rw [List.sum_map_ite_eq, List.count_eq_one_of_mem hl ha]
  simp

theorem sum_paiIds_count {l : List Nat} (hl : ∀ pai ∈ l, pai ∈ paiIds) :
    (paiIds.map fun pai => (l.count pai : Int)).sum = l.length := by
  induction l with
  | nil => decide
  | cons a l ih =>
      obtain ⟨ha, hl⟩ := List.forall_mem_cons.mp hl
      have hcons (pai : Nat) :
          ((a :: l).count pai : Int) = l.count pai + if pai = a then 1 else 0 := by
        rw [List.count_cons]
        by_cases h : pai = a
        · subst h
          simp
        · simp [h, Ne.symm h]
      simp only [hcons]
      rw [List.sum_map_add, ih hl, sum_ite paiIds_nodup ha, List.length_cons]
      push_cast
      rfl

variable {total m : PaiMap} {shouPaiNum : Int} {p : Pitch}

theorem num_update (m : PaiMap) (a : Nat) (v : Option Int) (pai : Nat) :
    PaiMap.num (Function.update m a v) pai = if pai = a then v.getD 0 else m.num pai := by
  unfold PaiMap.num
  by_cases h : pai = a
  · rw [if_pos h, h, Function.update_self]
  · rw [if_neg h, Function.update_of_ne h]

theorem size_add {a : Nat} (ha : a ∈ paiIds) (m : PaiMap) (n : Int) :
    size (Function.update m a (some (m.num a + n))) = size m + n := by
  have hnum (pai : Nat) : PaiMap.num (Function.update m a (some (m.num a + n))) pai =
      m.num pai + if pai = a then n else 0 := by
    rw [num_update]
    by_cases h : pai = a
    · rw [if_pos h, if_pos h, h, Option.getD_some]
    · rw [if_neg h, if_neg h, add_zero]
  have hmap : paiIds.map (PaiMap.num (Function.update m a (some (m.num a + n)))) =
      paiIds.map fun pai => m.num pai + if pai = a then n else 0 :=
    List.map_congr_left fun pai _ => hnum pai
  rw [size, hmap, List.sum_map_add, sum_ite paiIds_nodup ha]
  rfl

theorem size_none : size (fun _ => none) = 0 := by decide

/-! ## Picking keeps the tiles -/

structure Shared (total : PaiMap) (p : Pitch) : Prop where
  keys : ∀ pai, (p.totalPaiForPitch pai).isSome = (total pai).isSome
  sum : ∀ pai, p.totalPaiForPitch.num pai + p.pitchedPaiVec.num pai = total.num pai
  left : ∀ pai, 0 ≤ p.totalPaiForPitch.num pai
  picked : ∀ pai, ∀ n ∈ p.pitchedPaiVec pai, 0 < n
  num : p.pitchPaiNum = size p.pitchedPaiVec

def asked (pitchData : List (Nat × Int)) (pai : Nat) : Int :=
  (pitchData.map fun data => if data.1 = pai then data.2 else 0).sum

theorem asked_nonneg {pitchData : List (Nat × Int)} (h : ∀ data ∈ pitchData, 0 < data.2)
    (pai : Nat) : 0 ≤ asked pitchData pai := by
  refine List.sum_nonneg fun n hn => ?_
  obtain ⟨data, hdata, rfl⟩ := List.mem_map.mp hn
  have := h data hdata
  split <;> omega

theorem totalPaiForPitch_pitchOne (p : Pitch) (data : Nat × Int) (pai : Nat) :
    (pitchOne p data).totalPaiForPitch pai =
      if pai = data.1 then (p.totalPaiForPitch data.1).map (· - data.2)
      else p.totalPaiForPitch pai :=
  Function.update_apply ..

theorem pitchedPaiVec_pitchOne (p : Pitch) (data : Nat × Int) (pai : Nat) :
    (pitchOne p data).pitchedPaiVec pai =
      if pai = data.1 then some (p.pitchedPaiVec.num data.1 + data.2)
      else p.pitchedPaiVec pai :=
  Function.update_apply ..

theorem Shared.pitchOne (htiles : ∀ pai, (total pai).isSome → pai ∈ paiIds) (h : Shared total p)
    {data : Nat × Int} (hkey : (total data.1).isSome) (hpos : 0 < data.2)
    (hle : data.2 ≤ p.totalPaiForPitch.num data.1) : Shared total (NicePai.pitchOne p data) := by
  obtain ⟨n, hn⟩ := Option.isSome_iff_exists.mp ((h.keys data.1).trans hkey)
  have hpicked : 0 ≤ p.pitchedPaiVec.num data.1 := by
    unfold PaiMap.num
    cases hv : p.pitchedPaiVec data.1 with
    | none => exact le_rfl
    | some v => exact (h.picked data.1 v hv).le
  have hnum : p.totalPaiForPitch.num data.1 = n := by
    rw [PaiMap.num, hn, Option.getD_some]
  constructor
  case keys =>
    intro pai
    rw [totalPaiForPitch_pitchOne]
    split
    · next hpai => rw [hpai, hkey, Option.isSome_map, h.keys, hkey]
    · exact h.keys pai
  case sum =>
    intro pai
    rw [PaiMap.num, PaiMap.num, totalPaiForPitch_pitchOne, pitchedPaiVec_pitchOne, ← h.sum pai]
    split
    · next hpai =>
        rw [hpai, hn, hnum, Option.map_some, Option.getD_some, Option.getD_some]
        ring
    · rfl
  case left =>
    intro pai
    rw [PaiMap.num, totalPaiForPitch_pitchOne]
    split
    · rw [hn, Option.map_some, Option.getD_some]
      omega
    · exact h.left pai
  case picked =>
    intro pai k hk
    rw [pitchedPaiVec_pitchOne] at hk
    split at hk
    · obtain rfl := Option.some.inj hk
      omega
    · exact h.picked pai k hk
  case num =>
    change p.pitchPaiNum + data.2 = size (Function.update _ data.1 _)
    rw [size_add (htiles data.1 hkey), h.num]

theorem num_pitchOne (h : Shared total p) {data : Nat × Int} (hkey : (total data.1).isSome)
    (pai : Nat) : (pitchOne p data).totalPaiForPitch.num pai =
      p.totalPaiForPitch.num pai - if data.1 = pai then data.2 else 0 := by
  obtain ⟨n, hn⟩ := Option.isSome_iff_exists.mp ((h.keys data.1).trans hkey)
  rw [PaiMap.num, totalPaiForPitch_pitchOne]
  by_cases hpai : pai = data.1
  · rw [if_pos hpai, if_pos hpai.symm, hpai, PaiMap.num, hn, Option.map_some, Option.getD_some,
      Option.getD_some]
  · rw [if_neg hpai, if_neg (Ne.symm hpai), sub_zero]
    rfl

theorem Shared.pitchData (htiles : ∀ pai, (total pai).isSome → pai ∈ paiIds)
    {pitchData : List (Nat × Int)} (h : Shared total p)
    (hdata : ∀ data ∈ pitchData, (total data.1).isSome ∧ 0 < data.2)
    (hasked : ∀ pai, asked pitchData pai ≤ p.totalPaiForPitch.num pai) :
    Shared total (pitchData.foldl NicePai.pitchOne p) ∧
      (pitchData.foldl NicePai.pitchOne p).pitchPaiNum =
        p.pitchPaiNum + (pitchData.map Prod.snd).sum ∧
      (pitchData.foldl NicePai.pitchOne p).addFanIndex = p.addFanIndex ∧
      ∀ pai, (pitchData.foldl NicePai.pitchOne p).totalPaiForPitch.num pai =
        p.totalPaiForPitch.num pai - asked pitchData pai := by
  induction pitchData generalizing p with
  | nil => exact ⟨h, (add_zero _).symm, rfl, fun pai => (sub_zero _).symm⟩
  | cons data pitchData ih =>
      obtain ⟨⟨hkey, hpos⟩, hdata⟩ := List.forall_mem_cons.mp hdata
      have hcons (pai : Nat) : asked (data :: pitchData) pai =
          (if data.1 = pai then data.2 else 0) + asked pitchData pai := by
        rw [asked, List.map_cons, List.sum_cons, asked]
      have hle : data.2 ≤ p.totalPaiForPitch.num data.1 := by
        have h1 := hasked data.1
        have h2 := asked_nonneg (fun d hd => (hdata d hd).2) data.1
        rw [hcons, if_pos rfl] at h1
        omega
      have hstep := num_pitchOne h hkey
      obtain ⟨hshared, hnum, hindex, hleft⟩ := ih (h.pitchOne htiles hkey hpos hle) hdata
        fun pai => by
          have h1 := hasked pai
          rw [hcons] at h1
          rw [hstep]
          omega
      refine ⟨hshared, hnum.trans ?_, hindex, fun pai => (hleft pai).trans ?_⟩
      · rw [List.map_cons, List.sum_cons, ← add_assoc]
        rfl
      · rw [hstep, hcons, sub_sub]

/-! ## One pick -/

/-- A selection under way; each kong has raised `add_fan_index` and taken three tiles at least. -/
structure Going (total : PaiMap) (shouPaiNum : Int) (p : Pitch) : Prop extends Shared total p where
  fits : p.pitchPaiNum ≤ shouPaiNum
  index : 1 ≤ p.addFanIndex ∧ 3 * ((p.addFanIndex : Int) - 1) ≤ p.pitchPaiNum

theorem addPitchPai_cases (shouPaiNum : Int) (pitchData : List (Nat × Int)) (p : Pitch) :
    addPitchPai shouPaiNum pitchData p = (false, p) ∨
      addPitchPai shouPaiNum pitchData p = (true, pitchData.foldl pitchOne p) ∧
        (∀ data ∈ pitchData, ∃ n ∈ p.totalPaiForPitch data.1, data.2 ≤ n) ∧
        p.pitchPaiNum + (pitchData.map Prod.snd).sum ≤ shouPaiNum := by
  unfold addPitchPai
  split
  · exact .inl rfl
  · next hdata =>
    split
    · exact .inl rfl
    · next hfits =>
      refine .inr ⟨rfl, fun data hmem => ?_, not_lt.mp hfits⟩
      have hn := fun h => hdata ⟨data, hmem, h⟩
      cases hv : p.totalPaiForPitch data.1 with
      | none => exact absurd (by rw [hv]; rfl) hn
      | some n =>
          rw [hv, Option.all_some, decide_eq_true_eq] at hn
          exact ⟨n, rfl, not_lt.mp hn⟩

theorem addPitchPai_of {pitchData : List (Nat × Int)}
    (hdata : ∀ data ∈ pitchData, ∃ n ∈ p.totalPaiForPitch data.1, data.2 ≤ n)
    (hfits : p.pitchPaiNum + (pitchData.map Prod.snd).sum ≤ shouPaiNum) :
    addPitchPai shouPaiNum pitchData p = (true, pitchData.foldl pitchOne p) := by
  have hno : ¬ ∃ data ∈ pitchData, (p.totalPaiForPitch data.1).all (· < data.2) = true := by
    rintro ⟨data, hmem, hall⟩
    obtain ⟨n, hn, hle⟩ := hdata data hmem
    rw [hn, Option.all_some, decide_eq_true_eq] at hall
    omega
  rw [addPitchPai, if_neg hno, if_neg (not_lt.mpr hfits)]

theorem asked_of_nodup {pitchData : List (Nat × Int)} (hnodup : (pitchData.map Prod.fst).Nodup)
    (hleft : ∀ pai, 0 ≤ p.totalPaiForPitch.num pai)
    (hdata : ∀ data ∈ pitchData, ∃ n ∈ p.totalPaiForPitch data.1, data.2 ≤ n) (pai : Nat) :
    asked pitchData pai ≤ p.totalPaiForPitch.num pai := by
  induction pitchData with
  | nil => exact hleft pai
  | cons data pitchData ih =>
      obtain ⟨⟨n, hn, hle⟩, hdata⟩ := List.forall_mem_cons.mp hdata
      rw [List.map_cons, List.nodup_cons] at hnodup
      have hrest := ih hnodup.2 hdata
      rw [asked, List.map_cons, List.sum_cons]
      by_cases hpai : data.1 = pai
      · have hzero : asked pitchData pai = 0 := by
          refine List.sum_eq_zero fun k hk => ?_
          obtain ⟨d, hd, rfl⟩ := List.mem_map.mp hk
          refine if_neg fun h => hnodup.1 ?_
          rw [hpai, ← h]
          exact List.mem_map_of_mem hd
        rw [asked] at hzero
        rw [if_pos hpai, hzero, add_zero, ← hpai, PaiMap.num, hn, Option.getD_some]
        exact hle
      · rw [if_neg hpai, zero_add]
        exact hrest

structure Filled (total : PaiMap) (shouPaiNum : Int) (color : Nat) (p p' : Pitch) : Prop
    extends Going total shouPaiNum p' where
  le : ∀ pai, p'.totalPaiForPitch.num pai ≤ p.totalPaiForPitch.num pai
  full : p'.pitchPaiNum = shouPaiNum ∨
    ∀ pai, color * 10 + 1 ≤ pai → pai ≤ color * 10 + 9 → p'.totalPaiForPitch.num pai = 0

theorem asked_ones (l : List Nat) (pai : Nat) :
    asked (l.map fun pai => (pai, 1)) pai = l.count pai := by
  induction l with
  | nil => rfl
  | cons a l ih =>
      rw [asked, List.map_cons, List.map_cons, List.sum_cons, List.count_cons, ← asked, ih]
      by_cases h : a = pai
      · simp [h, add_comm]
      · simp [h]

theorem sum_ones (l : List Nat) :
    ((l.map fun pai => (pai, (1 : Int))).map Prod.snd).sum = l.length := by
  induction l with
  | nil => rfl
  | cons a l ih =>
      rw [List.map_cons, List.map_cons, List.sum_cons, ih, List.length_cons]
      push_cast
      exact add_comm ..

theorem count_flatMap_replicate {l : List Nat} (hl : l.Nodup) (f : Nat → Nat) (pai : Nat) :
    (l.flatMap fun x => List.replicate (f x) x).count pai = if pai ∈ l then f pai else 0 := by
  induction l with
  | nil => rfl
  | cons a l ih =>
      obtain ⟨ha, hl⟩ := List.nodup_cons.mp hl
      rw [List.flatMap_cons, List.count_append, ih hl, List.count_replicate]
      by_cases h : a = pai
      · subst h
        simp [ha]
      · simp [h, Ne.symm h]

theorem count_flowerPai (color : Nat) (p : Pitch) (pai : Nat) :
    (flowerPai color p).count pai =
      if color * 10 + 1 ≤ pai ∧ pai ≤ color * 10 + 9 then (p.totalPaiForPitch.num pai).toNat
      else 0 := by
  have hiff : pai ∈ List.range' (color * 10 + 1) 9 ↔
      color * 10 + 1 ≤ pai ∧ pai ≤ color * 10 + 9 := by
    rw [List.mem_range'_1]
    omega
  rw [flowerPai, count_flatMap_replicate List.nodup_range'
    fun pai => (p.totalPaiForPitch.num pai).toNat]
  simp only [hiff]

theorem sure_isDealAddFan (hshou : shouPaiNum ≤ 14) (h : Going total shouPaiNum p) :
    Draw.Sure (isDealAddFan p) fun _ => True := by
  have hrate : ∃ rate, addFanRate p.addFanIndex = some rate := by
    obtain ⟨hone, hthree⟩ := h.index
    have hfits := h.fits
    have hle : p.addFanIndex ≤ 5 := by omega
    generalize p.addFanIndex = index at hone hle
    interval_cases index <;> exact ⟨_, rfl⟩
  obtain ⟨rate, hrate⟩ := hrate
  exact .bind .unit fun _ _ => .bind (.ofOption hrate (Q := fun _ => True) trivial) fun _ _ =>
    .pure trivial

section Picks

variable (htiles : ∀ pai, (total pai).isSome → pai ∈ paiIds)

include htiles

theorem Going.addPitchPai (h : Going total shouPaiNum p) {pitchData : List (Nat × Int)}
    (hnodup : (pitchData.map Prod.fst).Nodup) (hpos : ∀ data ∈ pitchData, 0 < data.2) :
    Going total shouPaiNum (addPitchPai shouPaiNum pitchData p).2 ∧
      ((NicePai.addPitchPai shouPaiNum pitchData p).1 = true →
        (NicePai.addPitchPai shouPaiNum pitchData p).2.pitchPaiNum =
            p.pitchPaiNum + (pitchData.map Prod.snd).sum ∧
          (NicePai.addPitchPai shouPaiNum pitchData p).2.addFanIndex = p.addFanIndex) := by
  rcases addPitchPai_cases shouPaiNum pitchData p with heq | ⟨heq, hdata, hfits⟩
  · rw [heq]
    exact ⟨h, fun hf => absurd hf Bool.false_ne_true⟩
  · have hkeys : ∀ data ∈ pitchData, (total data.1).isSome ∧ 0 < data.2 := by
      intro data hmem
      obtain ⟨n, hn, -⟩ := hdata data hmem
      refine ⟨?_, hpos data hmem⟩
      rw [← h.keys, hn]
      rfl
    obtain ⟨hshared, hnum, hindex, -⟩ := h.toShared.pitchData htiles hkeys
      (asked_of_nodup hnodup h.left hdata)
    have hsum : 0 ≤ (pitchData.map Prod.snd).sum := by
      refine List.sum_nonneg fun n hn => ?_
      obtain ⟨data, hmem, rfl⟩ := List.mem_map.mp hn
      exact (hpos data hmem).le
    rw [heq]
    refine ⟨⟨hshared, hnum ▸ hfits, ?_⟩, fun _ => ⟨hnum, hindex⟩⟩
    obtain ⟨hone, hthree⟩ := h.index
    dsimp only
    rw [hindex, hnum]
    omega

theorem sure_pitchOneGang (hshou : shouPaiNum ≤ 14) {num : Int} (hnum : 3 ≤ num) (rate : ℚ)
    (pai : Nat) (h : Going total shouPaiNum p) :
    Draw.Sure (pitchOneGang shouPaiNum num rate pai p) (Going total shouPaiNum) := by
  refine .bind (sure_isDealAddFan hshou h) fun deal _ => ?_
  split
  · refine .bind .unit fun random _ => ?_
    split
    · obtain ⟨hgoing, htrue⟩ := h.addPitchPai htiles
        (show ([(pai, num)].map Prod.fst).Nodup from List.nodup_singleton pai)
        (List.forall_mem_singleton.mpr (by dsimp only; omega))
      refine .pure ?_
      split
      · next hdeal =>
          obtain ⟨hsum, hindex⟩ := htrue hdeal
          obtain ⟨hone, hthree⟩ := h.index
          refine ⟨⟨hgoing.keys, hgoing.sum, hgoing.left, hgoing.picked, hgoing.num⟩,
            hgoing.fits, Nat.le_add_left 1 _, ?_⟩
          rw [List.map_singleton, List.sum_singleton] at hsum
          dsimp only at hsum ⊢
          rw [hindex, hsum]
          push_cast
          omega
      · exact hgoing
    · exact .pure h
  · exact .pure h

theorem sure_pitchGang (hshou : shouPaiNum ≤ 14) {num : Int} (hnum : 3 ≤ num) (rate : ℚ)
    (pais : List Nat) (h : Going total shouPaiNum p) :
    Draw.Sure (pitchGang shouPaiNum num rate pais p) (Going total shouPaiNum) := by
  induction pais generalizing p with
  | nil => exact .pure h
  | cons pai pais ih =>
      exact .bind (sure_pitchOneGang htiles hshou hnum rate pai h) fun p' hp' => ih hp'

theorem sure_pitchPeng (pais : List Nat) (h : Going total shouPaiNum p) :
    Draw.Sure (pitchPeng shouPaiNum pais p) (Going total shouPaiNum) := by
  induction pais generalizing p with
  | nil => exact .pure h
  | cons pai pais ih =>
      refine .bind .unit fun random _ => ?_
      split
      · exact ih (h.addPitchPai htiles
          (show ([(pai, (2 : Int))].map Prod.fst).Nodup from List.nodup_singleton pai)
          (List.forall_mem_singleton.mpr two_pos)).1
      · exact .pure h

theorem sure_pitchOneShunzi {pitchNum shunziNum : Nat} (startPai : Nat) (hrun : shunziNum ≤ 13)
    (h : Going total shouPaiNum p) :
    Draw.Sure (pitchOneShunzi shouPaiNum pitchNum startPai shunziNum p)
      (Going total shouPaiNum) := by
  unfold pitchOneShunzi
  split
  · next hlong =>
    obtain ⟨hpos, hlong⟩ := hlong
    have hrate : ∃ rate, shunziRate pitchNum = some rate := by
      have hle : pitchNum ≤ 13 := le_trans hlong hrun
      clear hlong
      interval_cases pitchNum <;> exact ⟨_, rfl⟩
    obtain ⟨rate, hrate⟩ := hrate
    refine .bind .unit fun random _ =>
      .bind (.ofOption hrate (Q := fun _ => True) trivial) fun rate _ => ?_
    split
    · refine .bind (P := fun _ => True) ?_ fun offset _ => .pure ?_
      · split
        · exact (Draw.Sure.range (by omega)).mono fun _ _ => trivial
        · exact .pure trivial
      · refine (h.addPitchPai htiles ?_ fun data hdata => ?_).1
        · rw [List.map_map]
          exact (List.map_id _).symm ▸ List.nodup_range'
        · obtain ⟨pai, -, rfl⟩ := List.mem_map.mp hdata
          exact one_pos
    · exact .pure h
  · exact .pure h

theorem sure_pitchShunzi {pitchNum : Nat} {runs : List (Nat × Nat)}
    (hruns : ∀ run ∈ runs, run.2 ≤ 13) (h : Going total shouPaiNum p) :
    Draw.Sure (pitchShunzi shouPaiNum pitchNum runs p) (Going total shouPaiNum) := by
  induction runs generalizing p with
  | nil => exact .pure h
  | cons run runs ih =>
      obtain ⟨hrun, hruns⟩ := List.forall_mem_cons.mp hruns
      exact .bind (sure_pitchOneShunzi htiles run.1 hrun h) fun p' hp' => ih hruns hp'

/-! ## A suit is used up -/

theorem sure_pitchMust (color : Nat) (h : Going total shouPaiNum p) :
    Draw.Sure (pitchMust shouPaiNum color p) (Filled total shouPaiNum color p) := by
  refine .bind (.shuffled _) fun l hl => .pure ?_
  let k := (shouPaiNum - p.pitchPaiNum).toNat
  have hcount (pai : Nat) : ((l.take k).count pai : Int) ≤ p.totalPaiForPitch.num pai := by
    have hle := (List.take_sublist k l).count_le pai
    rw [hl.count_eq, count_flowerPai] at hle
    have hleft := h.left pai
    split at hle <;> omega
  have hdata : ∀ data ∈ (l.take k).map (fun pai => (pai, (1 : Int))),
      ∃ n ∈ p.totalPaiForPitch data.1, data.2 ≤ n := by
    intro data hmem
    obtain ⟨pai, hpai, rfl⟩ := List.mem_map.mp hmem
    have hone := List.count_pos_iff.mpr hpai
    have hle := hcount pai
    dsimp only
    unfold PaiMap.num at hle
    cases hn : p.totalPaiForPitch pai with
    | none =>
        rw [hn, Option.getD_none] at hle
        omega
    | some n =>
        rw [hn, Option.getD_some] at hle
        exact ⟨n, rfl, by omega⟩
  have hkeys : ∀ data ∈ (l.take k).map (fun pai => (pai, (1 : Int))),
      (total data.1).isSome ∧ 0 < data.2 := by
    intro data hmem
    obtain ⟨n, hn, -⟩ := hdata data hmem
    obtain ⟨pai, -, rfl⟩ := List.mem_map.mp hmem
    rw [← h.keys, hn]
    exact ⟨rfl, one_pos⟩
  have hlen : ((l.take k).length : Int) ≤ shouPaiNum - p.pitchPaiNum := by
    have := h.fits
    rw [List.length_take]
    omega
  obtain ⟨hshared, hnum, hindex, hleft⟩ := h.toShared.pitchData htiles hkeys fun pai =>
    (asked_ones (l.take k) pai).symm ▸ hcount pai
  rw [sum_ones] at hnum
  have hadd : addPitchPai shouPaiNum ((l.take k).map fun pai => (pai, 1)) p =
      (true, ((l.take k).map fun pai => (pai, (1 : Int))).foldl pitchOne p) :=
    addPitchPai_of hdata (by
      rw [sum_ones]
      omega)
  change Filled total shouPaiNum color p
    (addPitchPai shouPaiNum ((l.take k).map fun pai => (pai, 1)) p).2
  rw [hadd]
  obtain ⟨hone, hthree⟩ := h.index
  refine ⟨⟨hshared, by dsimp only; omega, ?_⟩, fun pai => ?_, ?_⟩
  · dsimp only
    rw [hindex, hnum]
    omega
  · dsimp only
    rw [hleft, asked_ones]
    omega
  · by_cases hk : k ≤ l.length
    · left
      have := h.fits
      rw [hnum, List.length_take, min_eq_left hk]
      omega
    · right
      intro pai hlow hhigh
      have hpai := h.left pai
      rw [hleft, asked_ones, List.take_of_length_le (not_le.mp hk).le, hl.count_eq,
        count_flowerPai, if_pos ⟨hlow, hhigh⟩]
      omega

/-! ## Runs -/

omit htiles in
theorem runFrom_le (total : PaiMap) {b : Nat} (k a num : Nat) (deal : List Nat) (hab : a ≤ b)
    (hb : total b = none ∨ a + k ≤ b) :
    (runFrom total (List.range' a k) (num, deal)).1 ≤ num + (b - a) := by
  induction k generalizing a num deal with
  | zero => exact Nat.le_add_right num _
  | succ k ih =>
      rw [List.range'_succ, runFrom]
      by_cases hlast : a = b
      · have hnone : total a = none := by
          rw [hlast]
          exact hb.resolve_right (by omega)
        rw [if_neg (by simp [hnone]), if_pos (by simp [hnone])]
        exact Nat.le_add_right num _
      · have hb' : total b = none ∨ a + 1 + k ≤ b := hb.imp_right fun h => by omega
        split
        · have := ih (a + 1) (num + 1) (a :: deal) (by omega) hb'
          omega
        · split
          · exact Nat.le_add_right num _
          · have := ih (a + 1) num deal (by omega) hb'
            omega

theorem shunzis_le : ∀ run ∈ shunzis total, run.2 ≤ 13 := by
  unfold shunzis
  refine List.foldlRecOn (motive := fun (r : List (Nat × Nat) × List Nat) =>
    ∀ run ∈ r.1, run.2 ≤ 13) _ _ (fun run h => absurd h List.not_mem_nil) ?_
  intro r hr i hi
  have hnone {b : Nat} (hb : b ∉ paiIds) : total b = none :=
    Option.not_isSome_iff_eq_none.mp fun h => hb (htiles b h)
  have hbounds := List.mem_range'_1.mp hi
  split
  · exact hr
  · next h =>
    split
    · intro run hrun
      rcases List.mem_append.mp hrun with hrun | hrun
      · exact hr run hrun
      · obtain rfl := List.mem_singleton.mp hrun
        dsimp only
        rcases lt_or_ge i 20 with hi | hi
        · have := runFrom_le total (b := 20) (39 - i) (i + 1) 1 (i :: r.2) (by omega)
            (.inl (hnone (by decide)))
          omega
        · rcases lt_or_ge i 30 with hi' | hi'
          · have := runFrom_le total (b := 30) (39 - i) (i + 1) 1 (i :: r.2) (by omega)
              (.inl (hnone (by decide)))
            omega
          · have := runFrom_le total (b := 40) (39 - i) (i + 1) 1 (i :: r.2) (by omega)
              (.inr (by omega))
            omega
    · exact hr

theorem canShunzi_le (order : PairsOrder) (color : Nat) :
    ∀ run ∈ canShunzi order total color, run.2 ≤ 13 := by
  intro run hrun
  obtain ⟨start, -, hfind⟩ := List.mem_filterMap.mp hrun
  exact shunzis_le htiles run (List.mem_of_find?_eq_some hfind)

/-! ## The rounds -/

variable (order : PairsOrder)

theorem sure_pitchSame (hshou : shouPaiNum ≤ 14) (color pitchNum : Nat) (isMust : Bool)
    (h : Going total shouPaiNum p) :
    Draw.Sure (pitchSame order total shouPaiNum color pitchNum isMust p)
      (Going total shouPaiNum) := by
  unfold pitchSame
  split
  · exact sure_pitchGang htiles hshou (by decide) _ _ h
  · split
    · exact sure_pitchGang htiles hshou le_rfl _ _ h
    · split
      · exact sure_pitchPeng htiles _ h
      · split
        · exact (sure_pitchMust htiles color h).mono fun p' hp' => hp'.toGoing
        · exact .pure h

theorem sure_pitchPai (hshou : shouPaiNum ≤ 14) (color pitchNum : Nat)
    (h : Going total shouPaiNum p) :
    Draw.Sure (pitchPai order total shouPaiNum color pitchNum false p)
      (Going total shouPaiNum) := by
  induction pitchNum generalizing p with
  | zero => exact .pure h
  | succ pitchNum ih =>
      rw [pitchPai]
      split
      · exact .pure h
      · exact .bind (sure_pitchSame htiles order hshou color (pitchNum + 1) false h) fun p₁ h₁ =>
          .bind (sure_pitchShunzi htiles (canShunzi_le htiles order color) h₁) fun p₂ h₂ => ih h₂

theorem sure_pitchPai_must (color : Nat) {pitchNum : Nat} (hpos : 1 ≤ pitchNum)
    (hle : (pitchNum : Int) ≤ shouPaiNum - p.pitchPaiNum) (h : Going total shouPaiNum p) :
    Draw.Sure (pitchPai order total shouPaiNum color pitchNum true p)
      (Filled total shouPaiNum color p) := by
  induction pitchNum with
  | zero => exact absurd hpos (by omega)
  | succ pitchNum ih =>
      rw [pitchPai, if_neg (not_lt.mpr hle)]
      by_cases hlast : pitchNum = 0
      · subst hlast
        exact .bind (sure_pitchMust htiles color h) fun p' hp' => .bind (.pure hp') fun p'' hp'' =>
          .pure hp''
      · have hsame : pitchSame order total shouPaiNum color (pitchNum + 1) true p = pure p := by
          simp [pitchSame, hlast]
        rw [hsame]
        exact ih (by omega) (by push_cast at hle; omega)

theorem sure_pitchRest (color : Nat) (hne : p.pitchPaiNum ≠ shouPaiNum)
    (h : Going total shouPaiNum p) :
    Draw.Sure (pitchRest order total shouPaiNum color p) (Filled total shouPaiNum color p) := by
  have := h.fits
  exact sure_pitchPai_must htiles order color (by omega) (by omega) h

theorem sure_pitchFirst (hshou : shouPaiNum ≤ 14) (color : Nat) (h : Going total shouPaiNum p) :
    Draw.Sure (pitchFirst order total shouPaiNum color p) (Going total shouPaiNum) := by
  refine .bind (sure_pitchPai htiles order hshou color _ h) fun p₁ h₁ => .bind .unit fun _ _ => ?_
  by_cases hlt : p₁.pitchPaiNum < shouPaiNum
  · rw [if_pos hlt]
    refine .bind (P := fun _ => True)
      (.bind (sure_isDealAddFan hshou h₁) fun _ _ => .pure trivial) fun fill _ => ?_
    split
    · exact (sure_pitchRest htiles order color hlt.ne h₁).mono fun p' hp' => hp'.toGoing
    · exact .pure h₁
  · rw [if_neg hlt]
    exact .pure h₁

def colorSize (m : PaiMap) (color : Nat) : Int :=
  ((paiIds.filter fun pai => flower pai = color).map m.num).sum

omit htiles in
theorem size_eq (m : PaiMap) : size m = colorSize m 1 + colorSize m 2 + colorSize m 3 := by
  have hsuits : paiIds = paiIds.filter (fun pai => flower pai = 1) ++
      paiIds.filter (fun pai => flower pai = 2) ++ paiIds.filter (fun pai => flower pai = 3) := by
    decide
  unfold colorSize
  rw [← List.sum_append, ← List.map_append, ← List.sum_append, ← List.map_append, ← hsuits, size]

omit htiles in
theorem colorSize_eq_zero {color : Nat}
    (h : ∀ pai, color * 10 + 1 ≤ pai → pai ≤ color * 10 + 9 → m.num pai = 0) :
    colorSize m color = 0 := by
  refine List.sum_eq_zero fun n hn => ?_
  obtain ⟨pai, hpai, rfl⟩ := List.mem_map.mp hn
  obtain ⟨hmem, hcolor⟩ := List.mem_filter.mp hpai
  have hbounds : ∀ pai ∈ paiIds, flower pai * 10 + 1 ≤ pai ∧ pai ≤ flower pai * 10 + 9 := by decide
  have := hbounds pai hmem
  rw [of_decide_eq_true hcolor] at this
  exact h pai this.1 this.2

omit htiles in
theorem Shared.picked_nonneg (h : Shared total p) (pai : Nat) : 0 ≤ p.pitchedPaiVec.num pai := by
  unfold PaiMap.num
  cases hv : p.pitchedPaiVec pai with
  | none => exact le_rfl
  | some v => exact (h.picked pai v hv).le

omit htiles in
theorem Shared.colorSize_le (h : Shared total p) (color : Nat) :
    colorSize p.totalPaiForPitch color ≤ colorSize total color :=
  List.sum_le_sum fun pai _ => by
    have h1 := h.sum pai
    have h2 := h.picked_nonneg pai
    omega

omit htiles in
theorem Shared.size_add (h : Shared total p) :
    size p.totalPaiForPitch + p.pitchPaiNum = size total := by
  rw [h.num, size, size, size, ← List.sum_map_add]
  exact congrArg List.sum (List.map_congr_left fun pai _ => h.sum pai)

theorem sure_pitchAll (hshou : shouPaiNum ≤ 14)
    (hroom : ∀ color ∈ [1, 2, 3], colorSize total color + shouPaiNum ≤ size total) {color : Nat}
    (hcolor : color ∈ [1, 2, 3]) (h : Going total shouPaiNum p) :
    Draw.Sure (pitchAll order total shouPaiNum color p) fun p' =>
      Going total shouPaiNum p' ∧ p'.pitchPaiNum = shouPaiNum := by
  refine .bind (P := Going total shouPaiNum) ?_ fun p₁ h₁ =>
    .bind (P := Filled total shouPaiNum (nextFlower color) p₁) ?_ fun p₂ h₂ => ?_
  · split
    · exact .pure h
    · exact sure_pitchFirst htiles order hshou color h
  · split
    · next hfull => exact .pure ⟨h₁, fun _ => le_rfl, .inl hfull⟩
    · next hne => exact sure_pitchRest htiles order _ hne h₁
  · split
    · next hfull => exact .pure ⟨h₂.toGoing, hfull⟩
    · next hne =>
      refine (sure_pitchRest htiles order _ hne h₂.toGoing).mono fun p₃ h₃ => ⟨h₃.toGoing, ?_⟩
      rcases h₃.full with hfull | hthird
      · exact hfull
      · -- the second and the third suit are used up, so everything else has been picked
        have hsecond := h₂.full.resolve_left hne
        have hzero₂ : colorSize p₃.totalPaiForPitch (nextFlower color) = 0 :=
          colorSize_eq_zero fun pai hlow hhigh =>
            le_antisymm ((h₃.le pai).trans (hsecond pai hlow hhigh).le) (h₃.left pai)
        have hzero₃ := colorSize_eq_zero hthird
        have hfirst := h₃.colorSize_le color
        have hsize := h₃.size_add
        have hsuits := size_eq p₃.totalPaiForPitch
        have hneed := hroom color hcolor
        have hfits := h₃.fits
        fin_cases hcolor
        all_goals
          simp only [nextFlower] at hzero₂ hzero₃
          norm_num at hzero₂ hzero₃
          omega

end Picks

/-! ## The hand and the pool -/

variable {shouPai : PaiMap} {paiPool : List Nat}

structure Ample (shouPai : PaiMap) (paiPool : List Nat) : Prop where
  hand : ∀ pai, (shouPai pai).isSome → pai ∈ paiIds
  pool : ∀ pai ∈ paiPool, pai ∈ paiIds
  num : ∀ pai, 0 ≤ shouPai.num pai
  four : ∀ pai, shouPai.num pai + paiPool.count pai ≤ 4
  size : size shouPai ≤ 14
  rest : 36 ≤ paiPool.length

/-- The new hand and the new pool have the tiles of the old ones, the hand as many as before. -/
structure Kept (shouPai : PaiMap) (paiPool : List Nat) (r : PaiMap × List Nat) : Prop where
  size : size r.1 = size shouPai
  length : r.2.length = paiPool.length
  num : ∀ pai, 0 ≤ r.1.num pai
  sum : ∀ pai, r.1.num pai + r.2.count pai = shouPai.num pai + paiPool.count pai

theorem num_totalPaiVec (shouPai : PaiMap) (paiPool : List Nat) (pai : Nat) :
    (totalPaiVec shouPai paiPool).num pai = shouPai.num pai + paiPool.count pai := by
  unfold PaiMap.num totalPaiVec
  split
  · rfl
  · next h =>
    obtain ⟨hnone, hpool⟩ := not_or.mp h
    rw [Option.not_isSome_iff_eq_none.mp hnone, List.count_eq_zero.mpr hpool]
    rfl

theorem Ample.size_total (h : Ample shouPai paiPool) :
    NicePai.size (totalPaiVec shouPai paiPool) = NicePai.size shouPai + paiPool.length := by
  have hmap : paiIds.map (totalPaiVec shouPai paiPool).num =
      paiIds.map fun pai => shouPai.num pai + paiPool.count pai :=
    List.map_congr_left fun pai _ => num_totalPaiVec shouPai paiPool pai
  rw [NicePai.size, hmap, List.sum_map_add, sum_paiIds_count h.pool]
  rfl

theorem Ample.colorSize_total (h : Ample shouPai paiPool) {color : Nat}
    (hcolor : color ∈ [1, 2, 3]) : colorSize (totalPaiVec shouPai paiPool) color ≤ 36 := by
  have hnine : (paiIds.filter fun pai => flower pai = color).length = 9 := by
    fin_cases hcolor <;> decide
  have hle := List.sum_le_card_nsmul
    ((paiIds.filter fun pai => flower pai = color).map (totalPaiVec shouPai paiPool).num) 4
    fun n hn => by
      obtain ⟨pai, -, rfl⟩ := List.mem_map.mp hn
      exact (num_totalPaiVec shouPai paiPool pai).trans_le (h.four pai)
  rw [List.length_map, hnine] at hle
  exact hle

theorem Ample.tiles (h : Ample shouPai paiPool) (pai : Nat)
    (hpai : (totalPaiVec shouPai paiPool pai).isSome) : pai ∈ paiIds := by
  unfold totalPaiVec at hpai
  split at hpai
  · next hor => exact hor.elim (h.hand pai) (h.pool pai)
  · exact absurd hpai Bool.false_ne_true

theorem Ample.maxPaiFlower (h : Ample shouPai paiPool) :
    maxPaiFlower shouPai paiPool ∈ [1, 2, 3] := by
  obtain ⟨pai, hpai⟩ := List.exists_mem_of_length_pos (lt_of_lt_of_le (by decide) h.rest)
  have hflower : flower pai ∈ [1, 2, 3] := by
    have hall : ∀ pai ∈ paiIds, flower pai ∈ [1, 2, 3] := by decide
    exact hall pai (h.pool pai hpai)
  have hpos : 0 < totalFlowerVec shouPai paiPool (flower pai) := by
    have hcount : 0 < paiPool.countP fun x => flower x = flower pai :=
      List.countP_pos_iff.mpr ⟨pai, hpai, decide_eq_true rfl⟩
    have hsum : 0 ≤ ((paiIds.filter fun x => flower x = flower pai).map shouPai.num).sum :=
      List.sum_nonneg fun n hn => by
        obtain ⟨x, -, rfl⟩ := List.mem_map.mp hn
        exact h.num x
    unfold totalFlowerVec
    omega
  unfold NicePai.maxPaiFlower
  generalize totalFlowerVec shouPai paiPool = v at hpos
  generalize flower pai = color at hflower hpos
  simp only [List.foldl_cons, List.foldl_nil]
  fin_cases hflower <;> grind

theorem Ample.going (h : Ample shouPai paiPool) :
    Going (totalPaiVec shouPai paiPool) (NicePai.size shouPai)
      { pitchPaiNum := 0, totalPaiForPitch := totalPaiVec shouPai paiPool,
        pitchedPaiVec := fun _ => none, addFanIndex := 1 } where
  keys _ := rfl
  sum _ := add_zero _
  left pai := by
    have := h.num pai
    rw [num_totalPaiVec]
    omega
  picked _ _ hn := absurd hn nofun
  num := size_none.symm
  fits := List.sum_nonneg fun n hn => by
    obtain ⟨pai, -, rfl⟩ := List.mem_map.mp hn
    exact h.num pai
  index := ⟨le_rfl, le_rfl⟩

theorem count_endPaiPool (order : PairsOrder) (h : Shared total p)
    (htiles : ∀ pai, (total pai).isSome → pai ∈ paiIds) (pai : Nat) :
    (((pais order total).flatMap fun pai =>
      List.replicate (p.totalPaiForPitch.num pai).toNat pai).count pai : Int) =
        p.totalPaiForPitch.num pai := by
  have hperm : (pais order total).Perm (paiIds.filter fun pai => (total pai).isSome) :=
    order.perm _
  rw [count_flatMap_replicate (hperm.nodup_iff.mpr (paiIds_nodup.filter _))
    fun pai => (p.totalPaiForPitch.num pai).toNat]
  split
  · exact Int.toNat_of_nonneg (h.left pai)
  · next hpai =>
    have hnone : p.totalPaiForPitch pai = none := by
      rw [← Option.not_isSome_iff_eq_none, h.keys]
      exact fun hsome => hpai (hperm.mem_iff.mpr (List.mem_filter.mpr ⟨htiles pai hsome, hsome⟩))
    rw [PaiMap.num, hnone]
    rfl

theorem Ample.sure (h : Ample shouPai paiPool) (order orderForPitch : PairsOrder) :
    Draw.Sure (adjustNicePai order orderForPitch shouPai paiPool) (Kept shouPai paiPool) := by
  have hroom : ∀ color ∈ [1, 2, 3], colorSize (totalPaiVec shouPai paiPool) color +
      NicePai.size shouPai ≤ NicePai.size (totalPaiVec shouPai paiPool) := by
    intro color hcolor
    have := h.colorSize_total hcolor
    have := h.rest
    rw [h.size_total]
    omega
  refine .bind (sure_pitchAll h.tiles order h.size hroom h.maxPaiFlower h.going) fun p hp => ?_
  obtain ⟨hgoing, hfull⟩ := hp
  refine .bind (.shuffled _) fun endPaiPool hperm => ?_
  have hcount (pai : Nat) : (endPaiPool.count pai : Int) = p.totalPaiForPitch.num pai := by
    rw [hperm.count_eq, count_endPaiPool orderForPitch hgoing.toShared h.tiles]
  have hlength : endPaiPool.length = paiPool.length := by
    have hids : ∀ pai ∈ endPaiPool, pai ∈ paiIds := by
      intro pai hpai
      obtain ⟨x, hx, hmem⟩ := List.mem_flatMap.mp (hperm.mem_iff.mp hpai)
      rw [(List.mem_replicate.mp hmem).2]
      exact (List.mem_filter.mp ((orderForPitch.perm _).mem_iff.mp hx)).1
    have hleft := sum_paiIds_count hids
    have hsize := hgoing.size_add
    simp only [hcount] at hleft
    change NicePai.size p.totalPaiForPitch = _ at hleft
    rw [h.size_total] at hsize
    omega
  rw [if_neg (not_not.mpr hlength), if_pos (List.all_eq_true.mpr fun pai _ =>
    decide_eq_true (hgoing.sum pai))]
  refine .pure ⟨hgoing.num.symm.trans hfull, hlength, hgoing.picked_nonneg, fun pai => ?_⟩
  rw [hcount, ← num_totalPaiVec, ← hgoing.sum pai]
  exact add_comm ..

end JyQipai.Mj.NicePai
