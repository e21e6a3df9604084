import JyQipai.Ddz.Hint
import JyQipai.Ddz.PaiShape
import JyQipai.Lib.Piles

/-!
# Soundness of the automatic play

Every combination found by a generator can be laid from the hand, is read back
by `get_pai_type` as the type and key it was made for, and beats the play it
answers.
-/

namespace JyQipai.Ddz

open JyQipai.Lib

/-! ## Counting used cards -/

theorem cardSum_update (f : Nat → Nat) {r : Nat} (hr : r ∈ paiRanks) (k : Nat) :
    cardSum (Function.update f r (f r + k)) = cardSum f + k := by
  have := sum_map_update (List.nodup_range' (s := 3) (n := 15)) hr f (f r + k)
  unfold cardSum paiRanks
  omega

def UseInfo.total (use : UseInfo) (r : Nat) : Nat := use.nor r + use.lz r

theorem UseInfo.total_empty (r : Nat) : UseInfo.empty.total r = 0 := rfl

theorem UseInfo.total_add (use : UseInfo) (c : Choice) (r : Nat) :
    (use.add c).total r =
      use.total r + if r = c.type then c.num + c.lzNum else 0 := by
  by_cases h : r = c.type
  · subst h
    simp only [UseInfo.total, UseInfo.add, Function.update_self, if_true]
    omega
  · simp [UseInfo.total, UseInfo.add, h]

/-- The cards used are in the hand: `phash` counts its ordinary cards and `lz`
its wildcards.  A wildcard never stands for a joker. -/
structure UseInfo.Fits (use : UseInfo) (phash : Nat → Nat) (lz : Nat) :
    Prop where
  nor_le : ∀ r, use.nor r ≤ phash r
  lz_le : cardSum use.lz ≤ lz
  lz_range : ∀ r, use.lz r ≠ 0 → 3 ≤ r ∧ r ≤ 15

structure HandCount (phash : Nat → Nat) (lzNum lzType : Nat) : Prop where
  support : ∀ r, phash r ≠ 0 → 3 ≤ r ∧ r ≤ 17
  boss : ∀ r, 16 ≤ r → phash r ≤ 1
  lz_range : 0 < lzNum → 3 ≤ lzType ∧ lzType ≤ 15

/-! ## The chooser -/

/-- What `choose_paiType_by_num` promises about its result. -/
structure Choice.Ok (c : Choice) (phash : Nat → Nat) (lz start cNum : Nat)
    (nc : Nat → Bool) : Prop where
  sum : c.num + c.lzNum = cNum
  num_le : c.num ≤ phash c.type
  lz_le : c.lzNum ≤ lz
  start_le : start ≤ c.type
  notClosed : nc c.type = false
  range : 3 ≤ c.type ∧ c.type ≤ 17
  lz_range : 0 < c.lzNum → c.type ≤ 15

theorem choosePaiTypeByNum_ok {phash : Nat → Nat} {lz lzType start cNum : Nat}
    {nc : Nat → Bool} {c : Choice}
    (hlz : 0 < lz → 3 ≤ lzType ∧ lzType ≤ 15)
    (h : choosePaiTypeByNum phash lz lzType start cNum nc = some c) :
    c.Ok phash lz start cNum nc := by
  simp only [choosePaiTypeByNum] at h
  split at h
  · next type hc =>
    have hm := best_mem hc
    simp only [List.mem_filter, Bool.and_eq_true, Bool.not_eq_true',
      decide_eq_true_eq, beq_iff_eq] at hm
    obtain ⟨hr, ⟨hnc, hstart⟩, hnum⟩ := hm
    obtain rfl := Option.some.inj h
    exact ⟨by simp [hnum], le_rfl, by simp, hstart, hnc, mem_paiRanks.mp hr,
      by simp⟩
  · split at h
    · next type hc =>
      have hm := best_mem hc
      simp only [List.mem_filter, Bool.and_eq_true, Bool.not_eq_true',
        decide_eq_true_eq] at hm
      obtain ⟨hr, ⟨⟨⟨⟨hnc, hstart⟩, hpos⟩, hlt⟩, hsum⟩, h16⟩ := hm
      obtain rfl := Option.some.inj h
      exact ⟨by simp only; omega, le_rfl, by simp only; omega, hstart, hnc,
        mem_paiRanks.mp hr, fun _ => by simp only; omega⟩
    · split at h
      · next type hc =>
        have hm := best_mem hc
        simp only [List.mem_filter, Bool.and_eq_true, Bool.not_eq_true',
          decide_eq_true_eq] at hm
        obtain ⟨hr, ⟨hnc, hstart⟩, hgt⟩ := hm
        obtain rfl := Option.some.inj h
        exact ⟨rfl, hgt.le, by simp, hstart, hnc, mem_paiRanks.mp hr, by simp⟩
      · split at h
        · next hc =>
          obtain ⟨hle, hpos, hnc, hstart⟩ := hc
          obtain rfl := Option.some.inj h
          have hr := hlz hpos
          exact ⟨by simp, by simp, hle, hstart, hnc, by simp only; omega,
            fun _ => hr.2⟩
        · cases h

theorem UseInfo.fits_empty (phash : Nat → Nat) (lz : Nat) :
    UseInfo.empty.Fits phash lz := by
  refine ⟨fun r => Nat.zero_le _, ?_, fun r h => absurd rfl h⟩
  have : cardSum UseInfo.empty.lz = 0 := rfl
  omega

theorem cardSum_add_lz (use : UseInfo) {c : Choice} (hr : c.type ∈ paiRanks) :
    cardSum (use.add c).lz = cardSum use.lz + c.lzNum :=
  cardSum_update use.lz hr c.lzNum

theorem UseInfo.Fits.add {use : UseInfo} {phash : Nat → Nat} {lz : Nat}
    {c : Choice} (h : use.Fits phash lz)
    (hr : 3 ≤ c.type ∧ c.type ≤ 17) (hlz : 0 < c.lzNum → c.type ≤ 15)
    (hnor : use.nor c.type + c.num ≤ phash c.type)
    (hsum : cardSum use.lz + c.lzNum ≤ lz) :
    (use.add c).Fits phash lz := by
  refine ⟨?_, ?_, ?_⟩
  · intro r
    by_cases hrc : r = c.type
    · subst hrc
      simpa [UseInfo.add] using hnor
    · simpa [UseInfo.add, Function.update_of_ne hrc] using h.nor_le r
  · rw [cardSum_add_lz use (mem_paiRanks.mpr hr)]
    exact hsum
  · intro r hne
    by_cases hrc : r = c.type
    · subst hrc
      simp only [UseInfo.add, Function.update_self] at hne
      rcases Nat.eq_zero_or_pos c.lzNum with h0 | hpos
      · exact h.lz_range _ (by omega)
      · exact ⟨hr.1, hlz hpos⟩
    · simp only [UseInfo.add, Function.update_of_ne hrc] at hne
      exact h.lz_range r hne

/-! ## Sound combinations -/

def Combo.play (c : Combo) : PaiType := ⟨c.type, c.pai⟩

/-- The combination can be laid, and `get_pai_type` reads its cards back as its
type with its key. -/
structure Combo.Sound (c : Combo) (phash : Nat → Nat) (lz : Nat) : Prop where
  fits : c.use.Fits phash lz
  makes : ∃ p, paiTypeOfCounts (cardSum c.use.lz)
      (sortPaiByAmount c.use.total) = some p ∧
    p.type = c.type ∧ p.key = c.play.key ∧
    (isRunType c.type → p.runEnd = c.play.runEnd)

section Generators

variable {phash : Nat → Nat} {lz lzType start : Nat}

private theorem fits_one {c : Choice} {cNum : Nat} {nc : Nat → Bool}
    (hc : c.Ok phash lz start cNum nc) :
    (UseInfo.empty.add c).Fits phash lz := by
  refine (UseInfo.fits_empty phash lz).add hc.range hc.lz_range ?_ ?_
  · simpa [UseInfo.empty] using hc.num_le
  · have : cardSum UseInfo.empty.lz = 0 := rfl
    have := hc.lz_le
    omega

private theorem cardSum_one {c : Choice} {cNum : Nat} {nc : Nat → Bool}
    (hc : c.Ok phash lz start cNum nc) :
    cardSum (UseInfo.empty.add c).lz = c.lzNum := by
  rw [cardSum_add_lz _ (mem_paiRanks.mpr hc.range)]
  simp [cardSum, UseInfo.empty]

private theorem fits_two {c d : Choice} {cNum dNum start' : Nat}
    {nc nc' : Nat → Bool}
    (hc : c.Ok phash lz start cNum nc)
    (hd : d.Ok phash (lz - c.lzNum) start' dNum nc') (hne : d.type ≠ c.type) :
    ((UseInfo.empty.add c).add d).Fits phash lz := by
  refine (fits_one hc).add hd.range hd.lz_range ?_ ?_
  · simpa [UseInfo.add, Function.update_of_ne hne, UseInfo.empty] using hd.num_le
  · have h₁ := cardSum_one hc
    have h₂ := hd.lz_le
    have h₃ := hc.lz_le
    omega

theorem getDpOrDzCombination_sound {n : Nat} {c : Combo}
    (hhand : HandCount phash lz lzType) (hn : 0 < n) (hn3 : n ≤ 3)
    (h : getDpOrDzCombination phash lz lzType start n = some c) :
    c.Sound phash lz ∧ c.type = n ∧ start ≤ c.play.key := by
  simp only [getDpOrDzCombination, Option.map_eq_some_iff] at h
  obtain ⟨d, hd, rfl⟩ := h
  have hok := choosePaiTypeByNum_ok hhand.lz_range hd
  refine ⟨⟨fits_one hok, ?_⟩, rfl, hok.start_le⟩
  refine ⟨⟨n, [d.type]⟩, paiType_group (mem_paiRanks.mpr hok.range) hn hn3 ?_,
    rfl, rfl, ?_⟩
  · intro r
    rw [UseInfo.total_add, UseInfo.total_empty, hok.sum, Nat.zero_add]
  · intro hrun
    interval_cases n <;> simp [isRunType] at hrun

theorem get3dnCombination_sound {n : Nat} {c : Combo}
    (hhand : HandCount phash lz lzType) (hn : n ≤ 2)
    (h : get3dnCombination phash lz lzType start n = some c) :
    c.Sound phash lz ∧ c.type = 3 + n ∧ start ≤ c.play.key := by
  simp only [get3dnCombination] at h
  split at h
  · cases h
  next a ha =>
    have hoka := choosePaiTypeByNum_ok hhand.lz_range ha
    split at h
    · next hpos =>
      simp only [Option.map_eq_some_iff] at h
      obtain ⟨b, hb, rfl⟩ := h
      have hokb := choosePaiTypeByNum_ok
        (fun h0 => hhand.lz_range (by omega)) hb
      have hne : b.type ≠ a.type := by
        intro heq
        have := hokb.notClosed
        simp [heq] at this
      refine ⟨⟨fits_two hoka hokb hne, ?_⟩, rfl, hoka.start_le⟩
      have htotal : ∀ r, ((UseInfo.empty.add a).add b).total r =
          if r = a.type then 3 else if r = b.type then n else 0 := by
        intro r
        rw [UseInfo.total_add, UseInfo.total_add, UseInfo.total_empty, hoka.sum,
          hokb.sum]
        by_cases h₁ : r = a.type
        · subst h₁
          simp [hne.symm]
        · simp [h₁]
      have hra := mem_paiRanks.mpr hoka.range
      have hrb := mem_paiRanks.mpr hokb.range
      obtain rfl | rfl : n = 1 ∨ n = 2 := by omega
      · exact ⟨⟨4, [a.type, b.type]⟩,
          paiType_threeWithOne hra hrb hne.symm htotal, rfl, rfl,
          by simp [isRunType]⟩
      · exact ⟨⟨5, [a.type, b.type]⟩,
          paiType_threeWithTwo hra hrb hne.symm htotal, rfl, rfl,
          by simp [isRunType]⟩
    · next hpos =>
      obtain rfl := Option.some.inj h
      refine ⟨⟨fits_one hoka, ?_⟩, by simp only; omega, hoka.start_le⟩
      refine ⟨⟨3, [a.type]⟩, paiType_group (mem_paiRanks.mpr hoka.range)
        (by omega) (by omega) ?_, rfl, rfl, by simp [isRunType]⟩
      intro r
      rw [UseInfo.total_add, UseInfo.total_empty, hoka.sum, Nat.zero_add]

private theorem fits_three {c d e : Choice} {ph : Nat → Nat} {k : Nat}
    {start' start'' : Nat} {nc nc' nc'' : Nat → Bool}
    (hc : c.Ok phash lz start 4 nc)
    (hd : d.Ok phash (lz - c.lzNum) start' k nc')
    (he : e.Ok ph (lz - c.lzNum - d.lzNum) start'' k nc'')
    (hdc : d.type ≠ c.type) (hec : e.type ≠ c.type)
    (hph : (if e.type = d.type then d.num else 0) + ph e.type ≤ phash e.type) :
    (((UseInfo.empty.add c).add d).add e).Fits phash lz := by
  refine (fits_two hc hd hdc).add he.range he.lz_range ?_ ?_
  · have hnum := he.num_le
    by_cases hed : e.type = d.type
    · have hd' := hd.num_le
      rw [hed] at hnum hph ⊢
      simp only [UseInfo.add, UseInfo.empty, Function.update_self,
        Function.update_of_ne hdc]
      simp only [if_true] at hph
      omega
    · simp only [UseInfo.add, UseInfo.empty, Function.update_of_ne hec,
        Function.update_of_ne hed]
      simp only [hed, if_false] at hph
      omega
  · rw [cardSum_add_lz _ (mem_paiRanks.mpr hd.range), cardSum_one hc]
    have h₁ := hc.lz_le
    have h₂ := hd.lz_le
    have h₃ := he.lz_le
    omega

private theorem total_three {c d e : Choice} {start' start'' k : Nat}
    {ph : Nat → Nat} {nc nc' nc'' : Nat → Bool}
    (hc : c.Ok phash lz start 4 nc)
    (hd : d.Ok phash (lz - c.lzNum) start' k nc')
    (he : e.Ok ph (lz - c.lzNum - d.lzNum) start'' k nc'')
    (hdc : d.type ≠ c.type) (hec : e.type ≠ c.type) (r : Nat) :
    (((UseInfo.empty.add c).add d).add e).total r =
      if r = c.type then 4
      else (if r = d.type then k else 0) + if r = e.type then k else 0 := by
  rw [UseInfo.total_add, UseInfo.total_add, UseInfo.total_add,
    UseInfo.total_empty, hc.sum, hd.sum, he.sum]
  by_cases h : r = c.type
  · subst h
    simp [hdc.symm, hec.symm]
  · simp [h]

theorem get4dnCombination_sound {n : Nat} {c : Combo}
    (hhand : HandCount phash lz lzType) (hn : n = 1 ∨ n = 2)
    (h : get4dnCombination phash lz lzType start n = some c) :
    c.Sound phash lz ∧ c.type = 7 + n ∧ start ≤ c.play.key := by
  simp only [get4dnCombination] at h
  split at h
  · cases h
  next a ha =>
  split at h
  · cases h
  next d hd =>
  simp only [Option.map_eq_some_iff] at h
  obtain ⟨e, he, rfl⟩ := h
  have hoka := choosePaiTypeByNum_ok hhand.lz_range ha
  have hokd := choosePaiTypeByNum_ok (fun h0 => hhand.lz_range (by omega)) hd
  have hoke := choosePaiTypeByNum_ok (fun h0 => hhand.lz_range (by omega)) he
  have hda : d.type ≠ a.type := by
    intro heq
    have := hokd.notClosed
    simp [heq] at this
  have hea : e.type ≠ a.type := by
    intro heq
    have := hoke.notClosed
    rcases hn with rfl | rfl
    · by_cases h15 : 15 < d.type
      · simp [h15, heq, Function.update_apply] at this
      · simp [h15, heq] at this
    · simp [heq, Function.update_apply] at this
  have htotal := total_three hoka hokd hoke hda hea
  have hra := mem_paiRanks.mpr hoka.range
  have hrd := mem_paiRanks.mpr hokd.range
  have hre := mem_paiRanks.mpr hoke.range
  rcases hn with rfl | rfl
  · refine ⟨⟨fits_three hoka hokd hoke hda hea ?_, ?_⟩, rfl, hoka.start_le⟩
    · have h₁ := hokd.num_le
      have h₂ := hoke.num_le
      have h₃ := hokd.sum
      by_cases hed : e.type = d.type
      · simp only [hed, if_true, Function.update_self] at h₂ ⊢
        omega
      · simp [hed]
    · have hboss : ∀ x y : Nat, x = d.type → y = e.type → 15 < x →
          y ≠ 16 ∧ y ≠ 17 := by
        rintro x y rfl rfl h15
        have := hoke.notClosed
        simp [h15, Function.update_apply] at this
        omega
      rcases Nat.lt_trichotomy d.type e.type with hlt | heq | hgt
      · refine ⟨_, paiType_fourWithTwo hra hrd hre hda.symm hea.symm hlt ?_ ?_,
          rfl, rfl, by simp [isRunType]⟩
        · have := hboss d.type e.type rfl rfl
          omega
        · intro r
          rw [htotal]
          by_cases h₁ : r = d.type
          · simp [h₁, hlt.ne]
          · simp [h₁]
      · refine ⟨_, paiType_fourWithPair hra hrd hda.symm ?_, rfl, rfl,
          by simp [isRunType]⟩
        intro r
        rw [htotal, heq]
        by_cases h₁ : r = e.type <;> simp [h₁]
      · refine ⟨_, paiType_fourWithTwo hra hre hrd hea.symm hda.symm hgt ?_ ?_,
          rfl, rfl, by simp [isRunType]⟩
        · have := hboss d.type e.type rfl rfl
          omega
        · intro r
          rw [htotal]
          by_cases h₁ : r = e.type
          · simp [h₁, hgt.ne]
          · simp [h₁]
  · have hed : e.type ≠ d.type := by
      intro heq
      have := hoke.notClosed
      simp [heq] at this
    refine ⟨⟨fits_three hoka hokd hoke hda hea ?_, ?_⟩, rfl, hoka.start_le⟩
    · simp [hed]
    · rcases Nat.lt_or_gt_of_ne hed with hlt | hgt
      · refine ⟨_, paiType_fourWithPairs hra hre hrd hea.symm hda.symm hlt ?_,
          rfl, rfl, by simp [isRunType]⟩
        intro r
        rw [htotal]
        by_cases h₁ : r = e.type
        · simp [h₁, hlt.ne]
        · simp [h₁]
      · refine ⟨_, paiType_fourWithPairs hra hrd hre hda.symm hea.symm hgt ?_,
          rfl, rfl, by simp [isRunType]⟩
        intro r
        rw [htotal]
        by_cases h₁ : r = d.type
        · simp [h₁, hgt.ne]
        · simp [h₁]

theorem lianxuFrom_spec {count : Nat} {l : List Nat} {lz₀ lz₁ : Nat}
    {use use' : UseInfo} (hl : l.Nodup) (hr : ∀ i ∈ l, i ∈ paiRanks)
    (hzero : ∀ i ∈ l, use.nor i = 0 ∧ use.lz i = 0)
    (h : lianxuFrom phash count l lz₀ use = some (use', lz₁)) :
    (∀ i ∈ l, use'.nor i ≤ phash i ∧ use'.total i = count) ∧
      (∀ i, i ∉ l → use'.nor i = use.nor i ∧ use'.lz i = use.lz i) ∧
      cardSum use'.lz + lz₁ = cardSum use.lz + lz₀ := by
  induction l generalizing lz₀ use with
  | nil =>
      simp only [lianxuFrom, Option.some.injEq, Prod.mk.injEq] at h
      obtain ⟨rfl, rfl⟩ := h
      exact ⟨by simp, fun _ _ => ⟨rfl, rfl⟩, rfl⟩
  | cons i l ih =>
      obtain ⟨hil, hl⟩ := List.nodup_cons.mp hl
      simp only [lianxuFrom] at h
      split at h
      · cases h
      next hge =>
        obtain ⟨hin, hout, hsum⟩ := ih hl (fun j hj => hr j (by simp [hj]))
          (fun j hj => by
            have hne : j ≠ i := by
              rintro rfl
              exact hil hj
            simpa [Function.update_of_ne hne] using hzero j (by simp [hj])) h
        obtain ⟨hz₁, hz₂⟩ := hzero i (by simp)
        obtain ⟨hi₁, hi₂⟩ := hout i hil
        simp only [Function.update_self] at hi₁ hi₂
        refine ⟨?_, ?_, ?_⟩
        · intro j hj
          rcases List.mem_cons.mp hj with rfl | hj
          · simp only [UseInfo.total, hi₁, hi₂]
            omega
          · exact hin j hj
        · intro j hj
          have hne : j ≠ i := fun hji => hj (by simp [hji])
          obtain ⟨h₁, h₂⟩ := hout j fun hjl => hj (by simp [hjl])
          simp only [Function.update_of_ne hne] at h₁ h₂
          exact ⟨h₁, h₂⟩
        · have hupd := cardSum_update use.lz (hr i (by simp))
            (count - min (phash i) count)
          rw [hz₂, Nat.zero_add] at hupd
          rw [hupd] at hsum
          omega

theorem getLianxuCombination_spec {lxNum count s e used : Nat} {use : UseInfo}
    (hstart : 3 ≤ start)
    (h : getLianxuCombination phash lz start lxNum count =
      some (s, e, use, used)) :
    start ≤ s ∧ s + lxNum ≤ 15 ∧ e = s + lxNum - 1 ∧ use.Fits phash lz ∧
      cardSum use.lz = used ∧
      ∀ r, use.total r = if s ≤ r ∧ r < s + lxNum then count else 0 := by
  simp only [getLianxuCombination] at h
  obtain ⟨s', hs', hsome⟩ := List.exists_of_findSome?_eq_some h
  split at hsome
  · cases hsome
  next =>
  simp only [Option.map_eq_some_iff, Prod.mk.injEq] at hsome
  obtain ⟨⟨use', lz'⟩, hfrom, rfl, rfl, rfl, rfl⟩ := hsome
  simp only [lianxuStarts, List.mem_range'_1] at hs'
  have hmem : ∀ i ∈ List.range' s' lxNum, i ∈ paiRanks := by
    intro i hi
    rw [List.mem_range'_1] at hi
    exact mem_paiRanks.mpr (by omega)
  obtain ⟨hin, hout, hsum⟩ := lianxuFrom_spec (List.nodup_range') hmem
    (fun i _ => ⟨rfl, rfl⟩) hfrom
  have hempty : cardSum UseInfo.empty.lz = 0 := rfl
  simp only [List.mem_range'_1] at hin hout
  have hout' : ∀ r, ¬ (s' ≤ r ∧ r < s' + lxNum) →
      use'.nor r = 0 ∧ use'.lz r = 0 := hout
  refine ⟨hs'.1, by omega, rfl, ⟨?_, ?_, ?_⟩, ?_, ?_⟩
  · intro r
    by_cases hr : s' ≤ r ∧ r < s' + lxNum
    · exact (hin r hr).1
    · simp only [(hout' r hr).1]
      omega
  · simp only
    omega
  · intro r hne
    by_cases hr : s' ≤ r ∧ r < s' + lxNum
    · omega
    · exact absurd (hout' r hr).2 hne
  · simp only
    omega
  · intro r
    split
    · next hr => exact (hin r hr).2
    · next hr =>
      simp only [UseInfo.total, (hout' r hr).1, (hout' r hr).2]

theorem getRunCombination_sound {type count lxNum : Nat} {c : Combo}
    (hstart : 3 ≤ start) (hlx : 2 ≤ lxNum)
    (htype : type = 6 ∧ count = 1 ∧ 5 ≤ lxNum ∨
      type = 7 ∧ count = 2 ∧ 3 ≤ lxNum ∨ type = 12 ∧ count = 3)
    (h : getRunCombination phash lz start type count lxNum = some c) :
    c.Sound phash lz ∧ c.type = type ∧ start ≤ c.play.key ∧
      c.play.runEnd + 1 = c.play.key + lxNum := by
  simp only [getRunCombination, Option.map_eq_some_iff] at h
  obtain ⟨⟨s, e, use, used⟩, hrun, rfl⟩ := h
  obtain ⟨hs, h15, rfl, hfits, -, htotal⟩ :=
    getLianxuCombination_spec hstart hrun
  refine ⟨⟨hfits, ⟨type, [s, s + lxNum - 1]⟩, ?_, rfl, rfl, fun _ => rfl⟩, rfl,
    hs, ?_⟩
  · rcases htype with ⟨rfl, rfl, hlen⟩ | ⟨rfl, rfl, hlen⟩ | ⟨rfl, rfl⟩
    · exact paiType_shunzi (by omega) h15 hlen htotal
    · exact paiType_liandui (by omega) h15 hlen htotal
    · exact paiType_feiji (by omega) h15 hlx htotal
  · simp only [Combo.play, PaiType.runEnd, PaiType.key, List.getD_cons_succ,
      List.getD_cons_zero]
    omega

theorem cardSum_total_add (use : UseInfo) {c : Choice}
    (hr : c.type ∈ paiRanks) :
    cardSum (use.add c).total = cardSum use.total + (c.num + c.lzNum) := by
  rw [← cardSum_update use.total hr (c.num + c.lzNum)]
  congr 1
  funext r
  rw [UseInfo.total_add]
  by_cases h : r = c.type
  · subst h
    simp
  · simp [h]

theorem wingPairs_spec {m lz₀ : Nat} {nc : Nat → Bool} {pai pai' : List Nat}
    {use use' : UseInfo} (hhand : HandCount phash lz lzType)
    (hfits : use.Fits phash lz) (hsum : cardSum use.lz + lz₀ ≤ lz)
    (hopen : ∀ r, nc r = false → use.total r = 0)
    (h : wingPairs phash lzType m lz₀ nc pai use = some (pai', use')) :
    use'.Fits phash lz ∧ (∃ wings, pai' = pai ++ wings) ∧
      cardSum use'.total = cardSum use.total + 2 * m ∧
      ∀ r, use'.total r = use.total r ∨ nc r = false ∧ use'.total r = 2 := by
  induction m generalizing lz₀ nc pai use with
  | zero =>
      simp only [wingPairs, Option.some.injEq, Prod.mk.injEq] at h
      obtain ⟨rfl, rfl⟩ := h
      exact ⟨hfits, ⟨[], by simp⟩, by simp, fun r => .inl rfl⟩
  | succ m ih =>
      simp only [wingPairs] at h
      split at h
      · cases h
      next c hc =>
        have hok := choosePaiTypeByNum_ok
          (fun h0 => hhand.lz_range (by omega)) hc
        have hzero := hopen c.type hok.notClosed
        have hr := mem_paiRanks.mpr hok.range
        obtain ⟨hfits', ⟨wings, rfl⟩, hcards, htotal⟩ := ih
          (hfits.add hok.range hok.lz_range
            (by have := hok.num_le; simp only [UseInfo.total] at hzero; omega)
            (by have := hok.lz_le; omega))
          (by
            rw [cardSum_add_lz _ hr]
            have := hok.lz_le
            omega)
          (by
            intro r hr
            have hne : r ≠ c.type := by
              rintro rfl
              simp at hr
            rw [Function.update_of_ne hne] at hr
            rw [UseInfo.total_add, hopen r hr, if_neg hne])
          h
        refine ⟨hfits', ⟨c.type :: wings, by simp⟩, ?_, ?_⟩
        · rw [hcards, cardSum_total_add _ hr, hok.sum]
          omega
        · intro r
          by_cases hne : r = c.type
          · subst hne
            refine .inr ⟨hok.notClosed, ?_⟩
            rcases htotal c.type with h₁ | h₁
            · rw [h₁, UseInfo.total_add, hzero, hok.sum, if_pos rfl]
            · exact h₁.2
          · have h₁ := htotal r
            rw [UseInfo.total_add, if_neg hne, Nat.add_zero,
              Function.update_of_ne hne] at h₁
            exact h₁

/-- The invariant of the loop of `get_feijid1_combination`: `hash` counts the
single wings chosen so far and `nc` closes ranks before they could form a bomb,
the pair of jokers or a longer run. -/
structure WingInv (head tail : Nat) (nc : Nat → Bool) (hash : Nat → Nat) :
    Prop where
  le : ∀ r, hash r ≤ 3
  openLe : ∀ r, nc r = false → hash r ≤ 2
  run : ∀ r, head ≤ r → r ≤ tail → nc r = true ∧ hash r = 0
  left : ∀ r, 3 ≤ r → r + 1 = head →
    hash r ≤ 2 ∧ (nc r = false → hash r ≤ 1)
  right : ∀ r, r < 15 → r = tail + 1 →
    hash r ≤ 2 ∧ (nc r = false → hash r ≤ 1)
  boss : hash 16 + hash 17 ≤ 1
  bossOpen : ∀ r, 16 ≤ r → r ≤ 17 → nc r = false → hash 16 + hash 17 = 0

theorem WingInv.next {head tail type : Nat} {nc : Nat → Bool} {hash : Nat → Nat}
    (h : WingInv head tail nc hash) (hopen : nc type = false)
    (hr : type ≤ 17) :
    WingInv head tail (wingClosed head tail type (hash type + 1) nc)
      (Function.update hash type (hash type + 1)) := by
  have hle := h.openLe type hopen
  constructor
  · intro r
    by_cases hrt : r = type
    · subst hrt
      rw [Function.update_self]
      omega
    · rw [Function.update_of_ne hrt]
      exact h.le r
  · intro r hnc
    simp only [wingClosed, Bool.or_eq_false_iff] at hnc
    by_cases hrt : r = type
    · subst hrt
      rw [Function.update_self]
      simp at hnc
      omega
    · rw [Function.update_of_ne hrt]
      exact h.openLe r hnc.1.1
  · intro r h₁ h₂
    have hrun := h.run r h₁ h₂
    have hrt : r ≠ type := by
      rintro rfl
      rw [hopen] at hrun
      cases hrun.1
    exact ⟨by simp [wingClosed, hrun.1], by rw [Function.update_of_ne hrt]; exact hrun.2⟩
  · intro r h₁ h₂
    have hleft := h.left r h₁ h₂
    by_cases hrt : r = type
    · subst hrt
      have := hleft.2 hopen
      rw [Function.update_self]
      refine ⟨by omega, fun hnc => ?_⟩
      simp [wingClosed, h₁, h₂] at hnc
      omega
    · rw [Function.update_of_ne hrt]
      refine ⟨hleft.1, fun hnc => hleft.2 ?_⟩
      simp only [wingClosed, Bool.or_eq_false_iff] at hnc
      exact hnc.1.1
  · intro r h₁ h₂
    have hright := h.right r h₁ h₂
    by_cases hrt : r = type
    · subst hrt
      have := hright.2 hopen
      rw [Function.update_self]
      refine ⟨by omega, fun hnc => ?_⟩
      simp [wingClosed, h₁, ← h₂] at hnc
      omega
    · rw [Function.update_of_ne hrt]
      refine ⟨hright.1, fun hnc => hright.2 ?_⟩
      simp only [wingClosed, Bool.or_eq_false_iff] at hnc
      exact hnc.1.1
  · by_cases h16 : 16 ≤ type
    · have := h.bossOpen type h16 hr hopen
      obtain rfl | rfl : type = 16 ∨ type = 17 := by omega
      · simp
        omega
      · simp
        omega
    · rw [Function.update_of_ne (by omega), Function.update_of_ne (by omega)]
      exact h.boss
  · intro r h₁ h₂ hnc
    have h16 : ¬ 16 ≤ type := by
      intro h16
      simp [wingClosed, show 15 < type by omega] at hnc
      omega
    simp only [wingClosed, Bool.or_eq_false_iff] at hnc
    rw [Function.update_of_ne (by omega), Function.update_of_ne (by omega)]
    exact h.bossOpen r h₁ h₂ hnc.1.1

theorem wingSingles_spec {m lz₀ head tail : Nat} {ph hash : Nat → Nat}
    {nc : Nat → Bool} {pai pai' : List Nat} {use use' : UseInfo}
    (hhand : HandCount phash lz lzType)
    (hfits : use.Fits phash lz) (hsum : cardSum use.lz + lz₀ ≤ lz)
    (hph : ∀ r, nc r = false → use.nor r + ph r ≤ phash r)
    (hinv : WingInv head tail nc hash)
    (htotal : ∀ r, use.total r =
      (if head ≤ r ∧ r ≤ tail then 3 else 0) + hash r)
    (h : wingSingles lzType head tail m ph lz₀ nc hash pai use =
      some (pai', use')) :
    use'.Fits phash lz ∧ (∃ wings, pai' = pai ++ wings) ∧
      cardSum use'.total = cardSum use.total + m ∧
      ∃ nc' hash', WingInv head tail nc' hash' ∧ ∀ r, use'.total r =
        (if head ≤ r ∧ r ≤ tail then 3 else 0) + hash' r := by
  induction m generalizing lz₀ ph nc hash pai use with
  | zero =>
      simp only [wingSingles, Option.some.injEq, Prod.mk.injEq] at h
      obtain ⟨rfl, rfl⟩ := h
      exact ⟨hfits, ⟨[], by simp⟩, by simp, nc, hash, hinv, htotal⟩
  | succ m ih =>
      simp only [wingSingles] at h
      split at h
      · cases h
      next c hc =>
        have hok := choosePaiTypeByNum_ok
          (fun h0 => hhand.lz_range (by omega)) hc
        have hr := mem_paiRanks.mpr hok.range
        have hc' := hph c.type hok.notClosed
        have hnum := hok.num_le
        obtain ⟨hfits', ⟨wings, rfl⟩, hcards, hrest⟩ := ih
          (hfits.add hok.range hok.lz_range (by omega)
            (by have := hok.lz_le; omega))
          (by
            rw [cardSum_add_lz _ hr]
            have := hok.lz_le
            omega)
          (by
            intro r hnc
            simp only [wingClosed, Bool.or_eq_false_iff] at hnc
            by_cases hrt : r = c.type
            · subst hrt
              simp only [UseInfo.add, Function.update_self]
              omega
            · simp only [UseInfo.add, Function.update_of_ne hrt]
              exact hph r hnc.1.1)
          (hinv.next hok.notClosed hok.range.2)
          (by
            intro r
            rw [UseInfo.total_add, htotal, hok.sum]
            by_cases hrt : r = c.type
            · subst hrt
              simp only [if_true, Function.update_self]
              omega
            · simp [hrt])
          h
        refine ⟨hfits', ⟨c.type :: wings, by simp⟩, ?_, hrest⟩
        rw [hcards, cardSum_total_add _ hr, hok.sum]
        omega

private theorem runEnd_key {type s e : Nat} {wings : List Nat} {use : UseInfo} :
    (⟨type, s :: e :: wings, use⟩ : Combo).play.key = s ∧
      (⟨type, s :: e :: wings, use⟩ : Combo).play.runEnd = e := ⟨rfl, rfl⟩

theorem getFeijid2Combination_sound {lxNum : Nat} {c : Combo}
    (hhand : HandCount phash lz lzType) (hstart : 3 ≤ start) (hlx : 2 ≤ lxNum)
    (h : getFeijid2Combination phash lz lzType start lxNum = some c) :
    c.Sound phash lz ∧ c.type = 11 ∧ start ≤ c.play.key ∧
      c.play.runEnd + 1 = c.play.key + lxNum := by
  simp only [getFeijid2Combination] at h
  obtain ⟨-, -, h⟩ := List.exists_of_findSome?_eq_some h
  split at h
  · cases h
  next s e use used hrun =>
  simp only [Option.map_eq_some_iff] at h
  obtain ⟨⟨pai', use'⟩, hwings, rfl⟩ := h
  obtain ⟨hs, h15, rfl, hfits, hused, htotal⟩ :=
    getLianxuCombination_spec hstart hrun
  obtain ⟨hfits', ⟨wings, rfl⟩, hcards, htotal'⟩ := wingPairs_spec hhand hfits
    (by have := hfits.lz_le; omega)
    (by
      intro r hnc
      rw [htotal, if_neg]
      simp [runClosed] at hnc
      omega) hwings
  have hcards₀ := cardSum_run (by omega) h15 htotal
  refine ⟨⟨hfits', ?_⟩, rfl, hs, ?_⟩
  · obtain ⟨w, hw⟩ := @paiType_feijid2 use'.total s lxNum (cardSum use'.lz)
      (by omega) h15 hlx
      (by
        intro r h₁ h₂
        rcases htotal' r with h | h
        · rw [h, htotal, if_pos ⟨h₁, h₂⟩]
        · simp [runClosed] at h
          omega)
      (by
        intro r hr
        rcases htotal' r with h | h
        · rw [h, htotal, if_neg hr]
          exact .inl rfl
        · exact .inr h.2)
      (by omega)
    exact ⟨_, hw, rfl, rfl, fun _ => rfl⟩
  · rw [List.cons_append, List.cons_append, runEnd_key.1, runEnd_key.2]
    omega

theorem getFeijid1Combination_sound {lxNum : Nat} {c : Combo}
    (hhand : HandCount phash lz lzType) (hstart : 3 ≤ start) (hlx : 2 ≤ lxNum)
    (h : getFeijid1Combination phash lz lzType start lxNum = some c) :
    c.Sound phash lz ∧ c.type = 10 ∧ start ≤ c.play.key ∧
      c.play.runEnd + 1 = c.play.key + lxNum := by
  simp only [getFeijid1Combination] at h
  obtain ⟨-, -, h⟩ := List.exists_of_findSome?_eq_some h
  split at h
  · cases h
  next s e use used hrun =>
  simp only [Option.map_eq_some_iff] at h
  obtain ⟨⟨pai', use'⟩, hwings, rfl⟩ := h
  obtain ⟨hs, h15, rfl, hfits, hused, htotal⟩ :=
    getLianxuCombination_spec hstart hrun
  have hinv : WingInv s (s + lxNum - 1) (runClosed s (s + lxNum - 1))
      fun _ => 0 := by
    constructor <;> simp [runClosed]
    omega
  obtain ⟨hfits', ⟨wings, rfl⟩, hcards, nc', hash', hinv', htotal'⟩ :=
    wingSingles_spec hhand hfits (by have := hfits.lz_le; omega)
      (by
        intro r hnc
        have hzero : use.total r = 0 := by
          rw [htotal, if_neg]
          simp [runClosed] at hnc
          omega
        simp only [UseInfo.total] at hzero
        omega)
      hinv
      (by
        intro r
        rw [htotal, Nat.add_zero]
        congr 1
        simp only [eq_iff_iff, and_congr_right_iff]
        omega)
      hwings
  have hcards₀ := cardSum_run (by omega) h15 htotal
  refine ⟨⟨hfits', ?_⟩, rfl, hs, ?_⟩
  · have hout : ∀ r, ¬ (s ≤ r ∧ r ≤ s + lxNum - 1) → use'.total r = hash' r := by
      intro r hr
      rw [htotal', if_neg hr, Nat.zero_add]
    obtain ⟨w, hw⟩ := @paiType_feijid1 use'.total s lxNum (cardSum use'.lz)
      (by omega) h15 hlx
      (by
        intro r h₁ h₂
        rw [htotal', if_pos (by omega), (hinv'.run r h₁ (by omega)).2])
      (by
        intro r _
        by_cases hr : s ≤ r ∧ r ≤ s + lxNum - 1
        · rw [htotal', if_pos hr, (hinv'.run r hr.1 hr.2).2]
        · rw [hout r hr]
          exact hinv'.le r)
      (by
        intro r h₁ h₂
        rw [hout r (by omega)]
        have := (hinv'.left r h₁ h₂).1
        omega)
      (by
        intro h₁
        rw [hout _ (by omega)]
        have := (hinv'.right (s + lxNum) h₁ (by omega)).1
        omega)
      (by
        rw [hout 16 (by omega), hout 17 (by omega)]
        exact hinv'.boss)
      (by omega)
    exact ⟨_, hw, rfl, rfl, fun _ => rfl⟩
  · rw [List.cons_append, List.cons_append, runEnd_key.1, runEnd_key.2]
    omega

theorem getRealZhadanCombination_sound {c : Combo}
    (hhand : HandCount phash lz lzType)
    (h : getRealZhadanCombination phash lz lzType start = some c) :
    c.Sound phash lz ∧ c.type = 13 ∧ start ≤ c.play.key := by
  have hbomb : ∀ d : Choice, d.Ok phash lz start 4 noneChosen →
      d.lzNum = 0 ∨ d.lzNum = 4 →
      (⟨13, [d.type], UseInfo.empty.add d⟩ : Combo).Sound phash lz := by
    intro d hd hlz
    refine ⟨fits_one hd, ⟨13, [d.type]⟩, ?_, rfl, rfl, by simp [isRunType]⟩
    rw [paiType_bomb (mem_paiRanks.mpr hd.range)]
    · rw [cardSum_one hd, if_neg (by omega)]
    · intro r
      rw [UseInfo.total_add, UseInfo.total_empty, hd.sum, Nat.zero_add]
  simp only [getRealZhadanCombination] at h
  split at h
  · next d hd =>
    obtain rfl := Option.some.inj h
    have hok := choosePaiTypeByNum_ok (fun h0 => absurd h0 (by omega)) hd
    have hlz : d.lzNum = 0 := by
      have := hok.lz_le
      omega
    have hd' : (⟨d.type, d.num, 0⟩ : Choice).Ok phash lz start 4 noneChosen :=
      ⟨by simpa [hlz] using hok.sum, hok.num_le, by simp, hok.start_le,
        hok.notClosed, hok.range, by simp⟩
    exact ⟨hbomb _ hd' (.inl rfl), rfl, hok.start_le⟩
  · split at h
    · next hc =>
      obtain rfl := Option.some.inj h
      have hr := hhand.lz_range (by omega)
      have hd : (⟨lzType, 0, 4⟩ : Choice).Ok phash lz start 4 noneChosen :=
        ⟨rfl, by simp, by simp only; omega, hc.2, rfl, by simp only; omega,
          fun _ => hr.2⟩
      exact ⟨hbomb _ hd (.inr rfl), rfl, hc.2⟩
    · cases h

theorem getJiaZhadanCombination_sound {c : Combo}
    (hhand : HandCount phash lz lzType)
    (h : getJiaZhadanCombination phash lz lzType start = some c) :
    c.Sound phash lz ∧ c.type = 15 ∧ start ≤ c.play.key := by
  simp only [getJiaZhadanCombination] at h
  generalize 18 = fuel at h
  generalize noneChosen = nc at h
  induction fuel generalizing nc with
  | zero => cases h
  | succ fuel ih =>
      simp only [jiaZhadanFrom] at h
      split at h
      · cases h
      next d hd =>
        split at h
        · next hlz =>
          obtain rfl := Option.some.inj h
          have hok := choosePaiTypeByNum_ok hhand.lz_range hd
          refine ⟨⟨fits_one hok, ⟨15, [d.type]⟩, ?_, rfl, rfl,
            by simp [isRunType]⟩, rfl, hok.start_le⟩
          rw [paiType_bomb (mem_paiRanks.mpr hok.range)]
          · rw [cardSum_one hok, if_pos (by omega)]
          · intro r
            rw [UseInfo.total_add, UseInfo.total_empty, hok.sum, Nat.zero_add]
        · exact ih _ h

theorem getWazhaCombination_sound {c : Combo}
    (h : getWazhaCombination phash = some c) :
    c.Sound phash lz ∧ c.type = 14 := by
  simp only [getWazhaCombination] at h
  split at h
  · next hc =>
    obtain rfl := Option.some.inj h
    have h₁ : (⟨16, 1, 0⟩ : Choice).Ok phash lz 0 1 noneChosen :=
      ⟨rfl, hc.1.ge, by simp, by simp, rfl, by decide, by simp⟩
    have h₂ : (⟨17, 1, 0⟩ : Choice).Ok phash lz 0 1 noneChosen :=
      ⟨rfl, hc.2.ge, by simp, by simp, rfl, by decide, by simp⟩
    refine ⟨⟨fits_two h₁ h₂ (by decide), ⟨14, [16, 17]⟩, ?_, rfl, rfl,
      by simp [isRunType]⟩, rfl⟩
    apply paiType_rocket
    intro r
    rw [UseInfo.total_add, UseInfo.total_add, UseInfo.total_empty]
    simp only
    split <;> split <;> omega
  · cases h

end Generators

end JyQipai.Ddz
