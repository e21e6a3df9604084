import JyQipai.Ddz.Settlement

/-!
# Settlements are zero-sum

The awards pass through the rate cap, the penalty for automatic play, the win
caps and the landlord's bankruptcy.  What survives all of these is recorded in
`SInfo.Settled`; it is enough for `calculate_score` to pay out exactly what it
has deducted.
-/

namespace JyQipai.Ddz

open JyQipai.Lib

/-! ## Reading an updated record -/

@[simp] theorem SInfo.awardOf_setAward (s : SInfo) (k j : Nat) (v : Int) :
    (s.setAward k v).awardOf j = if j = k then v else s.awardOf j := by
  simp [SInfo.setAward, SInfo.awardOf, Function.update_apply]

@[simp] theorem SInfo.awardOf_setSurplus (s : SInfo) (k j : Nat)
    (v : Option Int) : (s.setSurplus k v).awardOf j = s.awardOf j := rfl

@[simp] theorem SInfo.awardOf_markCap (s : SInfo) (k j : Nat) :
    (s.markCap k).awardOf j = s.awardOf j := rfl

@[simp] theorem SInfo.awardOf_clearCap (s : SInfo) (y : Bool) (k j : Nat)
    (drop : Int → Bool) : (s.clearCap y k drop).awardOf j = s.awardOf j := by
  unfold SInfo.clearCap
  split
  · rfl
  · split <;> rfl

@[simp] theorem SInfo.awardOf_settleCap (s : SInfo) (y : Bool) (k j : Nat) :
    (s.settleCap y k).awardOf j = s.awardOf j := by
  unfold SInfo.settleCap
  split
  · split
    · split <;> simp
    · rfl
  · rfl

theorem SInfo.awardOf_cap (s : SInfo) (k j : Nat) (m : Int) (isOver : Bool) :
    (s.cap k m isOver).awardOf j =
      if j = k ∧ isOver then m else s.awardOf j := by
  unfold SInfo.cap
  cases isOver with
  | false => simp
  | true => simp [SInfo.awardOf, SInfo.setAward, Function.update_apply]

theorem SInfo.winner_cap (s : SInfo) (k : Nat) (m : Int) (isOver : Bool) :
    (s.cap k m isOver).winner = s.winner ∧
      (s.cap k m isOver).autoBaopeiPos = s.autoBaopeiPos := by
  unfold SInfo.cap
  split <;> exact ⟨rfl, rfl⟩

/-! ## What settlement promises to the payment -/

/-- The awards of a settled hand with the landlord `d` and the farmers `nm`. -/
structure SInfo.Settled (s : SInfo) (d : Nat) (nm : List Nat) : Prop where
  winner : s.winner = 4 ∨ s.winner = 5
  lose : s.winner = 5 → ∀ f ∈ nm, s.awardOf f ≤ 0
  pay : s.winner = 4 → s.awardOf d ≤ 0
  win : s.winner = 4 → ∀ f ∈ nm, 0 ≤ s.awardOf f
  balance : s.winner = 4 → s.autoBaopeiPos = none →
    s.awardOf d = -(nm.map s.awardOf).sum
  baopei : s.winner = 4 → ∀ pos, s.autoBaopeiPos = some pos →
    pos ∈ nm ∧ s.awardOf pos = 0

private theorem sum_awardOf_congr {s s' : SInfo} {nm : List Nat}
    (h : ∀ f ∈ nm, s'.awardOf f = s.awardOf f) :
    (nm.map s'.awardOf).sum = (nm.map s.awardOf).sum := by
  rw [List.map_congr_left h]

private theorem sum_nonneg {s : SInfo} {nm : List Nat}
    (h : ∀ f ∈ nm, 0 ≤ s.awardOf f) : 0 ≤ (nm.map s.awardOf).sum :=
  List.sum_nonneg fun x hx => by
    obtain ⟨f, hf, rfl⟩ := List.mem_map.mp hx
    exact h f hf

/-! ## Win caps -/

theorem capNongmin_spec (caps : Nat → Int) (hcaps : ∀ k, 0 ≤ caps k)
    (todo : List (Nat × Int)) (all : Int) (s : SInfo)
    (hnodup : (todo.map Prod.fst).Nodup)
    (htodo : ∀ kv ∈ todo, kv.2 = s.awardOf kv.1 ∧ 0 < kv.2) :
    let r := capNongmin caps todo all s
    r.2 = all + ((todo.map Prod.fst).map r.1.awardOf).sum ∧
      (∀ kv ∈ todo, 0 ≤ r.1.awardOf kv.1) ∧
      (∀ j, j ∉ todo.map Prod.fst → r.1.awardOf j = s.awardOf j) ∧
      r.1.winner = s.winner ∧ r.1.autoBaopeiPos = s.autoBaopeiPos := by
  induction todo generalizing all s with
  | nil => simp [capNongmin]
  | cons kv todo ih =>
      obtain ⟨k, v⟩ := kv
      obtain ⟨hk, hnodup⟩ := List.nodup_cons.mp hnodup
      obtain ⟨hv, hpos⟩ := htodo (k, v) List.mem_cons_self
      simp only [capNongmin]
      set s' := s.cap k (caps k) (decide (caps k < v)) with hs'
      have hs'k : 0 ≤ s'.awardOf k := by
        rw [hs', SInfo.awardOf_cap]
        have := hcaps k
        split <;> simp only at hv hpos <;> omega
      have hother : ∀ j, j ≠ k → s'.awardOf j = s.awardOf j := by
        intro j hj
        rw [hs', SInfo.awardOf_cap, if_neg (by simp [hj])]
      obtain ⟨hsum, hnn, hframe, hw, hb⟩ := ih (all + s'.awardOf k) s' hnodup (by
        intro kv hkv
        have hne : kv.1 ≠ k := by
          rintro heq
          exact hk (List.mem_map.mpr ⟨kv, hkv, heq⟩)
        obtain ⟨h₁, h₂⟩ := htodo kv (List.mem_cons_of_mem _ hkv)
        exact ⟨h₁.trans (hother kv.1 hne).symm, h₂⟩)
      have hkframe := hframe k hk
      have hcap := SInfo.winner_cap s k (caps k) (decide (caps k < v))
      refine ⟨?_, ?_, ?_, hw.trans hcap.1, hb.trans hcap.2⟩
      · rw [hsum, List.map_cons, List.map_cons, List.sum_cons, hkframe]
        ring
      · intro kv hkv
        rcases List.mem_cons.mp hkv with rfl | hkv
        · rwa [hkframe]
        · exact hnn kv hkv
      · intro j hj
        simp only [List.map_cons, List.mem_cons, not_or] at hj
        rw [hframe j hj.2, hother j hj.1]

theorem capDizhu_spec (maxWin : Int) (hmax : maxWin ≤ 0)
    (todo : List (Nat × Int)) (all : Int) (s : SInfo) :
    let r := capDizhu maxWin todo all s
    (∀ j, r.1.awardOf j ≤ 0 ∨ r.1.awardOf j = s.awardOf j) ∧
      r.1.winner = s.winner := by
  induction todo generalizing all s with
  | nil => exact ⟨fun j => .inr rfl, rfl⟩
  | cons kv todo ih =>
      obtain ⟨k, v⟩ := kv
      simp only [capDizhu]
      set s' := s.cap k maxWin (decide (v < maxWin)) with hs'
      have hs'j : ∀ j, s'.awardOf j ≤ 0 ∨ s'.awardOf j = s.awardOf j := by
        intro j
        rw [hs', SInfo.awardOf_cap]
        split
        · exact .inl hmax
        · exact .inr rfl
      obtain ⟨hr, hw⟩ := ih (all + s'.awardOf k) s'
      refine ⟨fun j => ?_, hw.trans (SInfo.winner_cap ..).1⟩
      rcases hr j with h | h
      · exact .inl h
      · rcases hs'j j with h' | h'
        · exact .inl (by rw [h]; exact h')
        · exact .inr (h.trans h')

/-! ## Seats -/

/-- `set_dizhu` has named the landlord and the farmers. -/
structure Table.HasDizhu (t : Table) : Prop where
  dizhu_mem : t.play.dizhu ∈ t.cfg.seatList
  nongmin_eq : t.nongmin = t.others

theorem Table.seatList_perm {t : Table} (h : t.play.dizhu ∈ t.cfg.seatList) :
    t.cfg.seatList.Perm (t.play.dizhu :: t.others) := by
  have hnodup : t.cfg.seatList.Nodup := List.nodup_range'
  have herase : t.others = t.cfg.seatList.erase t.play.dizhu := by
    rw [hnodup.erase_eq_filter, Table.others]
    refine List.filter_congr fun x _ => ?_
    by_cases hx : x = t.play.dizhu <;> simp [hx]
  rw [herase]
  exact List.perm_cons_erase h

theorem Table.dizhu_notMem_others (t : Table) : t.play.dizhu ∉ t.others := by
  simp [Table.others]

theorem Table.others_nodup (t : Table) : t.others.Nodup :=
  (List.nodup_range' (s := 1) (n := t.cfg.seatCount)).filter _

theorem Table.others_three {t : Table} (hgame : t.cfg.gameType ≠ .er)
    (h : t.play.dizhu ∈ t.cfg.seatList) : ∃ a b, t.others = [a, b] := by
  obtain ⟨-, -, hlist⟩ := t.cfg.seat_cases.resolve_right fun h => hgame h.1
  rw [hlist] at h
  simp only [List.mem_cons, List.not_mem_nil, or_false] at h
  rcases h with h | h | h <;> simp [Table.others, hlist, h]

theorem Table.others_er {t : Table} (hgame : t.cfg.gameType = .er)
    (h : t.play.dizhu ∈ t.cfg.seatList) : ∃ a, t.others = [a] := by
  obtain ⟨-, -, hlist⟩ := t.cfg.seat_cases.resolve_left fun h => h.1 hgame
  rw [hlist] at h
  simp only [List.mem_cons, List.not_mem_nil, or_false] at h
  rcases h with h | h <;> simp [Table.others, hlist, h]

/-! ## From the rates to the settled awards -/

theorem Table.awards_dizhu (t : Table) (sign : Int) :
    t.awards sign t.play.dizhu = -(t.others.map (t.awards sign)).sum := by
  have hne : ∀ f ∈ t.others, f ≠ t.play.dizhu := by
    rintro f hf rfl
    exact t.dizhu_notMem_others hf
  have hmap : t.others.map (t.awards sign) =
      t.others.map fun f => sign * ((t.pRate f * t.cfg.initStake : Nat) : Int) := by
    refine List.map_congr_left fun f hf => ?_
    simp only [Table.awards, if_neg (hne f hf), if_pos hf]
  rw [hmap]
  simp only [Table.awards, if_true]

theorem Table.awards_others (t : Table) (sign : Int) {f : Nat}
    (hf : f ∈ t.others) :
    t.awards sign f = sign * ((t.pRate f * t.cfg.initStake : Nat) : Int) := by
  have hne : f ≠ t.play.dizhu := by
    rintro rfl
    exact t.dizhu_notMem_others hf
  simp only [Table.awards, if_neg hne, if_pos hf]

theorem SInfo.Settled.baopei_step {s : SInfo} {d pos other : Nat}
    {nm : List Nat} (h : s.Settled d nm) (hd : d ∉ nm) (hpos : pos ∈ nm)
    (hother : other ∈ nm) (hne : pos ≠ other) :
    (s.baopei pos other).Settled d nm := by
  have hpd : d ≠ pos := fun heq => hd (heq ▸ hpos)
  have hod : d ≠ other := fun heq => hd (heq ▸ hother)
  by_cases h5 : s.winner = 5
  · have hs : s.baopei pos other =
        ({ s with autoBaopeiPos := some pos }.setAward pos
          (s.awardOf pos * 2)).setAward other 0 := if_pos h5
    have haward : ∀ f, (s.baopei pos other).awardOf f =
        if f = other then 0 else if f = pos then s.awardOf pos * 2
        else s.awardOf f := by
      intro f
      rw [hs, SInfo.awardOf_setAward, SInfo.awardOf_setAward]
      rfl
    have hwin : (s.baopei pos other).winner = 5 := by rw [hs]; exact h5
    refine ⟨.inr hwin, fun _ f hf => ?_, ?_, ?_, ?_, ?_⟩
    · rw [haward]
      have h₁ := h.lose h5 f hf
      have h₂ := h.lose h5 pos hpos
      split
      · omega
      · split <;> omega
    all_goals
      intro h4
      rw [hwin] at h4
      cases h4
  · have h4 := h.winner.resolve_right h5
    have hs : s.baopei pos other =
        ({ s with autoBaopeiPos := some pos }.setAward pos 0).setAward other
          (s.awardOf other * 2) := if_neg h5
    have haward : ∀ f, (s.baopei pos other).awardOf f =
        if f = other then s.awardOf other * 2 else if f = pos then 0
        else s.awardOf f := by
      intro f
      rw [hs, SInfo.awardOf_setAward, SInfo.awardOf_setAward]
      rfl
    have hauto : (s.baopei pos other).autoBaopeiPos = some pos := by rw [hs]; rfl
    have hwin : (s.baopei pos other).winner = 4 := by rw [hs]; exact h4
    refine ⟨.inl hwin, ?_, fun _ => ?_, fun _ f hf => ?_, ?_, ?_⟩
    · intro h5'
      rw [hwin] at h5'
      cases h5'
    · rw [haward, if_neg hod, if_neg hpd]
      exact h.pay h4
    · rw [haward]
      have h₁ := h.win h4 f hf
      have h₂ := h.win h4 other hother
      split
      · omega
      · split <;> omega
    · intro _ hnone
      rw [hauto] at hnone
      cases hnone
    · intro _ p hp
      rw [hauto] at hp
      obtain rfl := Option.some.inj hp
      refine ⟨hpos, ?_⟩
      rw [haward, if_neg hne, if_pos rfl]

theorem Table.winAwards_settled (t : Table) (w : Nat)
    (hfresh : t.sInfo.autoBaopeiPos = none) :
    (t.winAwards w).sInfo.winner = (if w = t.play.dizhu then 5 else 4) ∧
      (t.winAwards w).sInfo.Settled t.play.dizhu t.others := by
  set u := (t.chuntian w).fixRate with hu
  have hothers : u.others = t.others := rfl
  have hdizhu : u.play.dizhu = t.play.dizhu := rfl
  by_cases hwd : w = t.play.dizhu
  · have hwin : (t.winAwards w).sInfo.winner = 5 := by simp [winAwards, hwd]
    have haward : ∀ f, (t.winAwards w).sInfo.awardOf f = u.awards (-1) f := by
      intro f
      simp only [winAwards, hwd, decide_true, if_true, SInfo.awardOf,
        Option.getD_some, hu]
    refine ⟨by rw [hwin, if_pos hwd], .inr hwin, fun _ f hf => ?_, ?_, ?_, ?_, ?_⟩
    · rw [haward, u.awards_others _ (hothers ▸ hf)]
      omega
    all_goals
      intro h4
      rw [hwin] at h4
      cases h4
  · have hwin : (t.winAwards w).sInfo.winner = 4 := by simp [winAwards, hwd]
    have haward : ∀ f, (t.winAwards w).sInfo.awardOf f = u.awards 1 f := by
      intro f
      simp [winAwards, hwd, SInfo.awardOf, hu]
    have hpos : ∀ f ∈ t.others, 0 ≤ (t.winAwards w).sInfo.awardOf f := by
      intro f hf
      rw [haward, u.awards_others _ (hothers ▸ hf)]
      omega
    have hbal : (t.winAwards w).sInfo.awardOf t.play.dizhu =
        -(t.others.map (t.winAwards w).sInfo.awardOf).sum := by
      rw [List.map_congr_left fun f _ => haward f, haward, ← hdizhu,
        u.awards_dizhu, hothers]
    refine ⟨by rw [hwin, if_neg hwd], .inl hwin, ?_, fun _ => ?_, fun _ => hpos,
      fun _ _ => hbal, ?_⟩
    · intro h5
      rw [hwin] at h5
      cases h5
    · have := sum_nonneg hpos
      omega
    · intro _ p hp
      have : (t.winAwards w).sInfo.autoBaopeiPos = none := hfresh
      rw [this] at hp
      cases hp

theorem SInfo.winner_baopei (s : SInfo) (pos other : Nat) :
    (s.baopei pos other).winner = s.winner := by
  unfold SInfo.baopei
  split <;> rfl

theorem Table.checkBaopei_settled {t : Table} (h : t.HasDizhu)
    (hs : t.sInfo.Settled t.play.dizhu t.others) :
    t.checkBaopei.sInfo.winner = t.sInfo.winner ∧
      t.checkBaopei.sInfo.Settled t.play.dizhu t.others := by
  by_cases hgame : t.cfg.gameType = .er
  · have : t.checkBaopei.sInfo = t.sInfo := by simp [Table.checkBaopei, hgame]
    rw [this]
    exact ⟨rfl, hs⟩
  obtain ⟨a, b, hab⟩ := Table.others_three hgame h.dizhu_mem
  have hnodup := t.others_nodup
  have hnot := t.dizhu_notMem_others
  have h₁ : t.nm1 = a := by rw [nm1, h.nongmin_eq, hab]; rfl
  have h₂ : t.nm2 = b := by rw [nm2, h.nongmin_eq, hab]; rfl
  rw [hab] at hnodup hnot hs ⊢
  have hne : a ≠ b := by simpa using hnodup
  simp only [Table.checkBaopei, h₁, h₂]
  split
  · exact ⟨SInfo.winner_baopei .., hs.baopei_step hnot (by simp) (by simp) hne⟩
  · split
    · exact ⟨SInfo.winner_baopei ..,
        hs.baopei_step hnot (by simp) (by simp) hne.symm⟩
    · exact ⟨rfl, hs⟩

theorem Table.settleAwards_settled {t : Table} {w : Nat} (h : t.HasDizhu)
    (hw : w ≠ 0) (hfresh : t.sInfo.autoBaopeiPos = none) :
    (t.settleAwards w).sInfo.winner = (if w = t.play.dizhu then 5 else 4) ∧
      (t.settleAwards w).sInfo.Settled t.play.dizhu t.others := by
  obtain ⟨hwin, hs⟩ := t.winAwards_settled w hfresh
  have hd : (t.winAwards w).HasDizhu := ⟨h.dizhu_mem, h.nongmin_eq⟩
  obtain ⟨hwin', hs'⟩ := checkBaopei_settled hd hs
  rw [settleAwards, if_neg hw]
  exact ⟨hwin'.trans hwin, hs'⟩

theorem Table.settleAwards_frame (t : Table) (w : Nat) :
    (t.settleAwards w).play = t.play ∧ (t.settleAwards w).cfg = t.cfg ∧
      (t.settleAwards w).nongmin = t.nongmin := by
  unfold settleAwards
  split <;> exact ⟨rfl, rfl, rfl⟩

private theorem sum_filter {l : List Nat} {p : Nat → Bool} {g : Nat → Int}
    (h : ∀ x ∈ l, p x = false → g x = 0) :
    ((l.filter p).map g).sum = (l.map g).sum := by
  induction l with
  | nil => rfl
  | cons a l ih =>
      have ih := ih fun x hx => h x (List.mem_cons_of_mem _ hx)
      cases hp : p a with
      | true => simp [hp, ih]
      | false => simp [hp, ih, h a List.mem_cons_self hp]

theorem Table.awardList_fst (t : Table) (p : Int → Bool) :
    (t.awardList p).map Prod.fst =
      t.cfg.seatList.filter fun s => p (t.sInfo.awardOf s) := by
  simp [Table.awardList, List.filter_map, List.map_map, Function.comp_def]

theorem Table.capNongmin_settled {t : Table} {caps : Nat → Int}
    (hcaps : ∀ k, 0 ≤ caps k)
    (h : t.sInfo.Settled t.play.dizhu t.others) (h4 : t.sInfo.winner = 4) :
    let r := capNongmin caps (t.awardList (0 < ·)) 0 t.sInfo
    (r.1.setAward t.play.dizhu (-r.2)).winner = 4 ∧
      (r.1.setAward t.play.dizhu (-r.2)).Settled t.play.dizhu t.others := by
  have hfst := t.awardList_fst (0 < ·)
  obtain ⟨hsum, hnn, hframe, hwin, hauto⟩ := capNongmin_spec caps hcaps
    (t.awardList (0 < ·)) 0 t.sInfo
    (by rw [hfst]; exact (List.nodup_range' (s := 1) (n := t.cfg.seatCount)).filter _)
    (by
      intro kv hkv
      simp only [Table.awardList, List.mem_filter, List.mem_map] at hkv
      obtain ⟨⟨s, -, rfl⟩, hpos⟩ := hkv
      exact ⟨rfl, by simpa using hpos⟩)
  set r := capNongmin caps (t.awardList (0 < ·)) 0 t.sInfo
  have hnot : ∀ f ∈ t.others, f ≠ t.play.dizhu := by
    rintro f hf rfl
    exact t.dizhu_notMem_others hf
  have haward : ∀ f ∈ t.others,
      (r.1.setAward t.play.dizhu (-r.2)).awardOf f = r.1.awardOf f := by
    intro f hf
    rw [SInfo.awardOf_setAward, if_neg (hnot f hf)]
  -- a farmer who is not asked has won nothing
  have hzero : ∀ f ∈ t.others, decide (0 < t.sInfo.awardOf f) = false →
      r.1.awardOf f = 0 := by
    intro f hf hle
    have hle' : ¬ 0 < t.sInfo.awardOf f := by simpa using hle
    rw [hframe f (by rw [hfst]; simp [hle])]
    have := h.win h4 f hf
    omega
  have hasked : t.cfg.seatList.filter (fun s => decide (0 < t.sInfo.awardOf s)) =
      t.others.filter fun s => decide (0 < t.sInfo.awardOf s) := by
    rw [Table.others, List.filter_filter]
    refine List.filter_congr fun f _ => ?_
    by_cases hf : f = t.play.dizhu
    · have := h.pay h4
      simp [hf, this]
    · simp [hf]
  have hpos : ∀ f ∈ t.others, 0 ≤ r.1.awardOf f := by
    intro f hf
    cases hp : decide (0 < t.sInfo.awardOf f) with
    | false => exact (hzero f hf hp).ge
    | true =>
        refine hnn (f, t.sInfo.awardOf f) ?_
        simp only [Table.awardList, List.mem_filter, List.mem_map]
        exact ⟨⟨f, (List.mem_filter.mp hf).1, rfl⟩, hp⟩
  have hall : r.2 = (t.others.map r.1.awardOf).sum := by
    rw [hsum, hfst, hasked, Int.zero_add, sum_filter hzero]
  have hbal : (r.1.setAward t.play.dizhu (-r.2)).awardOf t.play.dizhu =
      -(t.others.map (r.1.setAward t.play.dizhu (-r.2)).awardOf).sum := by
    rw [List.map_congr_left haward, SInfo.awardOf_setAward, if_pos rfl, hall]
  refine ⟨hwin.trans h4, .inl (hwin.trans h4), ?_, fun _ => ?_, fun _ f hf => ?_,
    fun _ _ => hbal, ?_⟩
  · intro h5
    have : r.1.winner = 5 := h5
    omega
  · rw [SInfo.awardOf_setAward, if_pos rfl, hall]
    have := sum_nonneg hpos
    omega
  · rw [haward f hf]
    exact hpos f hf
  · intro _ pos hp
    obtain ⟨hmem, hz⟩ := h.baopei h4 pos (hauto.symm.trans hp)
    refine ⟨hmem, ?_⟩
    rw [haward pos hmem]
    exact hzero pos hmem (by simp [hz])

theorem Table.capDizhu_settled {t : Table} {maxWin : Int} (hmax : 0 ≤ maxWin)
    (h : t.sInfo.Settled t.play.dizhu t.others) (h5 : t.sInfo.winner = 5) :
    (t.capDizhuAnswer maxWin).sInfo.winner = 5 ∧
      (t.capDizhuAnswer maxWin).sInfo.Settled t.play.dizhu t.others := by
  obtain ⟨haward, hwin⟩ := capDizhu_spec (-maxWin) (by omega)
    (t.awardList (· < 0)) 0 t.sInfo
  simp only [Table.capDizhuAnswer, Table.setDizhuAward]
  set r := capDizhu (-maxWin) (t.awardList (· < 0)) 0 t.sInfo
  have hwin5 : (r.1.setAward t.play.dizhu (-r.2)).winner = 5 := hwin.trans h5
  refine ⟨hwin5, .inr hwin5, fun _ f hf => ?_, ?_, ?_, ?_, ?_⟩
  · have hne : f ≠ t.play.dizhu := by
      rintro rfl
      exact t.dizhu_notMem_others hf
    rw [SInfo.awardOf_setAward, if_neg hne]
    rcases haward f with hle | heq
    · exact hle
    · rw [heq]
      exact h.lose h5 f hf
  all_goals
    intro h4
    rw [hwin5] at h4
    cases h4

theorem SInfo.Settled.of_pRate {s : SInfo} {d : Nat} {nm : List Nat}
    (h : s.Settled d nm) (r : Nat → Nat) :
    { s with pRate := r }.Settled d nm :=
  ⟨h.winner, h.lose, h.pay, h.win, h.balance, h.baopei⟩

theorem Table.settlementWith_settled {t : Table} {w : Nat} {caps : Nat → Int}
    (h : t.HasDizhu) (hw : w ≠ 0) (hfresh : t.sInfo.autoBaopeiPos = none)
    (hcaps : ∀ k, 0 ≤ caps k) :
    let t' := t.settlementWith caps w
    t'.play = t.play ∧ t'.cfg = t.cfg ∧ t'.nongmin = t.nongmin ∧
      t'.sInfo.winner = (if w = t.play.dizhu then 5 else 4) ∧
      t'.sInfo.Settled t.play.dizhu t.others := by
  obtain ⟨hplay, hcfg, hnm⟩ := t.settleAwards_frame w
  obtain ⟨hwin, hs⟩ := Table.settleAwards_settled h hw hfresh
  simp only [Table.settlementWith]
  set u := t.settleAwards w
  have hothers : u.others = t.others := by
    simp only [Table.others, hcfg, hplay]
  rw [← hplay, ← hothers] at hs
  split
  · split
    · next h4 =>
      obtain ⟨hw4, hc⟩ := Table.capNongmin_settled hcaps hs h4
      rw [hplay, hothers] at hc
      have := hc.of_pRate fun s => if 1 ≤ s ∧ s ≤ 3 then u.pRate s else 0
      refine ⟨hplay, hcfg, hnm, hw4.trans (h4.symm.trans hwin), ?_⟩
      simpa only [Table.settlementEnd, Table.wait, Table.setDizhuAward, hplay]
        using this
    · split
      · next h5 =>
        obtain ⟨hw5, hc⟩ := Table.capDizhu_settled (hcaps u.play.dizhu) hs h5
        rw [hplay, hothers] at hc
        have := hc.of_pRate fun s => if 1 ≤ s ∧ s ≤ 3 then u.pRate s else 0
        refine ⟨hplay, hcfg, hnm, hw5.trans (h5.symm.trans hwin), ?_⟩
        simpa only [Table.settlementEnd, Table.wait, Table.capDizhuAnswer,
          Table.setDizhuAward, hplay] using this
      · rw [hplay, hothers] at hs
        exact ⟨hplay, hcfg, hnm, hwin, hs.of_pRate _⟩
  · rw [hplay, hothers] at hs
    exact ⟨hplay, hcfg, hnm, hwin, hs.of_pRate _⟩

/-! ## Payment -/

def paidTo (seats : List Nat) (calls : List ScoreCall) : Int :=
  ((calls.filter fun c => c.seat ∈ seats).map ScoreCall.asked).sum

def takenFrom (seats : List Nat) (calls : List ScoreCall) : Int :=
  -((calls.filter fun c => c.seat ∈ seats).map ScoreCall.answer).sum

theorem paidTo_append (seats : List Nat) (l₁ l₂ : List ScoreCall) :
    paidTo seats (l₁ ++ l₂) = paidTo seats l₁ + paidTo seats l₂ := by
  simp [paidTo]

theorem takenFrom_append (seats : List Nat) (l₁ l₂ : List ScoreCall) :
    takenFrom seats (l₁ ++ l₂) = takenFrom seats l₁ + takenFrom seats l₂ := by
  simp only [takenFrom, List.filter_append, List.map_append, List.sum_append]
  ring

theorem paidTo_single (seats : List Nat) (c : ScoreCall) :
    paidTo seats [c] = if c.seat ∈ seats then c.asked else 0 := by
  by_cases h : c.seat ∈ seats <;> simp [paidTo, h]

theorem takenFrom_single (seats : List Nat) (c : ScoreCall) :
    takenFrom seats [c] = if c.seat ∈ seats then -c.answer else 0 := by
  by_cases h : c.seat ∈ seats <;> simp [takenFrom, h]

section Pay

variable {answer : Nat → Int → Int} {yfd : Bool}

theorem deductNongmin_spec (nm todo : List Nat) (hnodup : todo.Nodup)
    (hsub : ∀ f ∈ todo, f ∈ nm) (s : SInfo) (real surplus : Int)
    (calls : List ScoreCall) :
    let r := deductNongmin answer yfd todo s real surplus calls
    r.2.1 = real + (todo.map r.1.awardOf).sum ∧
      (∀ j, j ∉ todo → r.1.awardOf j = s.awardOf j) ∧
      takenFrom nm r.2.2.2 = takenFrom nm calls - (r.2.1 - real) ∧
      ∀ d, d ∉ nm → paidTo [d] r.2.2.2 = paidTo [d] calls := by
  induction todo generalizing s real surplus calls with
  | nil => simp [deductNongmin]
  | cons pos todo ih =>
      obtain ⟨hpos, hnodup⟩ := List.nodup_cons.mp hnodup
      have hsub' := fun f hf => hsub f (List.mem_cons_of_mem pos hf)
      simp only [deductNongmin]
      split
      · next h0 =>
        obtain ⟨hreal, hframe, htaken, hpaid⟩ :=
          ih hnodup hsub' s real surplus calls
        refine ⟨?_, ?_, htaken, hpaid⟩
        · rw [hreal, List.map_cons, List.sum_cons, hframe pos hpos, h0]
          ring
        · intro j hj
          exact hframe j fun h => hj (List.mem_cons_of_mem _ h)
      · set rd := answer pos (s.awardOf pos)
        set s' := ((s.setSurplus pos (some (rd - s.awardOf pos))).setAward pos
          rd).clearCap yfd pos fun data => data < rd
        obtain ⟨hreal, hframe, htaken, hpaid⟩ := ih hnodup hsub' s' (real + rd)
          (surplus + (rd - s.awardOf pos)) (calls ++ [⟨pos, s.awardOf pos, rd⟩])
        have hs' : ∀ j, s'.awardOf j = if j = pos then rd else s.awardOf j := by
          intro j
          rw [SInfo.awardOf_clearCap, SInfo.awardOf_setAward,
            SInfo.awardOf_setSurplus]
        refine ⟨?_, ?_, ?_, ?_⟩
        · rw [hreal, List.map_cons, List.sum_cons, hframe pos hpos, hs', if_pos rfl]
          ring
        · intro j hj
          simp only [List.mem_cons, not_or] at hj
          rw [hframe j hj.2, hs', if_neg hj.1]
        · rw [htaken, takenFrom_append, takenFrom_single,
            if_pos (hsub pos List.mem_cons_self)]
          ring
        · intro d hd
          rw [hpaid d hd, paidTo_append, paidTo_single, if_neg, add_zero]
          simp only [List.mem_singleton]
          rintro rfl
          exact hd (hsub _ List.mem_cons_self)

theorem payNongmin_spec (nm todo : List Nat) (hsub : ∀ f ∈ todo, f ∈ nm)
    (s : SInfo) (hpos : ∀ f ∈ todo, 0 ≤ s.awardOf f) (calls : List ScoreCall) :
    let r := payNongmin answer yfd todo s calls
    (∀ j, r.1.awardOf j = s.awardOf j) ∧
      paidTo nm r.2 = paidTo nm calls + (todo.map s.awardOf).sum ∧
      ∀ d, d ∉ nm → takenFrom [d] r.2 = takenFrom [d] calls := by
  induction todo generalizing s calls with
  | nil => simp [payNongmin]
  | cons pos todo ih =>
      have hsub' := fun f hf => hsub f (List.mem_cons_of_mem pos hf)
      have hpos' := fun f hf => hpos f (List.mem_cons_of_mem pos hf)
      simp only [payNongmin]
      split
      · set s' := s.settleCap yfd pos
        have haward : ∀ j, s'.awardOf j = s.awardOf j := s.awardOf_settleCap yfd pos
        obtain ⟨hframe, hpaid, htaken⟩ := ih hsub' s'
          (fun f hf => by rw [haward]; exact hpos' f hf)
          (calls ++ [⟨pos, s.awardOf pos, answer pos (s.awardOf pos)⟩])
        refine ⟨fun j => (hframe j).trans (haward j), ?_, ?_⟩
        · rw [hpaid, paidTo_append, paidTo_single,
            if_pos (hsub pos List.mem_cons_self), List.map_cons, List.sum_cons,
            List.map_congr_left fun f _ => haward f]
          ring
        · intro d hd
          rw [htaken d hd, takenFrom_append, takenFrom_single, if_neg, add_zero]
          simp only [List.mem_singleton]
          rintro rfl
          exact hd (hsub _ List.mem_cons_self)
      · next hle =>
        have h0 := hpos pos List.mem_cons_self
        obtain ⟨hframe, hpaid, htaken⟩ := ih hsub' s hpos' calls
        refine ⟨hframe, ?_, htaken⟩
        rw [hpaid, List.map_cons, List.sum_cons]
        omega

theorem SInfo.Settled.distribute (F : NumFormat) {s : SInfo} {d : Nat}
    {nm : List Nat} {game : GameType} (h : s.Settled d nm) (h4 : s.winner = 4)
    (hd : d ∉ nm) (hnodup : nm.Nodup)
    (hthree : game ≠ .er → ∃ a b, nm = [a, b])
    (her : game = .er → ∃ a, nm = [a]) {rd : Int} (hlo : s.awardOf d ≤ rd)
    (hhi : rd ≤ 0) {v : Option Int} {r : SInfo}
    (hr : r = ((s.setSurplus d v).setAward d rd).distribute F game d nm (-rd)) :
    (∀ f ∈ nm, 0 ≤ r.awardOf f) ∧ (nm.map r.awardOf).sum = -rd ∧
      r.awardOf d = rd := by
  set s' := (s.setSurplus d v).setAward d rd
  have hs' : ∀ f, s'.awardOf f = if f = d then rd else s.awardOf f := by
    intro f
    rw [SInfo.awardOf_setAward, SInfo.awardOf_setSurplus]
  simp only [SInfo.distribute] at hr
  by_cases hgame : game = .er
  · obtain ⟨a, rfl⟩ := her hgame
    rw [if_pos hgame] at hr
    have hda : d ≠ a := by simpa using hd
    subst hr
    simp only [List.getD_cons_zero, List.mem_singleton, forall_eq, List.map_cons,
      List.map_nil, List.sum_singleton, SInfo.awardOf_setAward, if_true,
      if_neg hda, hs']
    exact ⟨by omega, trivial, trivial⟩
  obtain ⟨a, b, rfl⟩ := hthree hgame
  have hab : a ≠ b := by simpa using hnodup
  obtain ⟨hda, hdb⟩ : d ≠ a ∧ d ≠ b := by simpa using hd
  have ha := h.win h4 a (by simp)
  have hb := h.win h4 b (by simp)
  have hpay := h.pay h4
  simp only [if_neg hgame, List.getD_cons_zero, List.getD_cons_succ, hs',
    if_neg hda.symm, if_neg hdb.symm] at hr
  -- the shares of a landlord who could not pay everything
  have hsplit : ∀ fp, 0 ≤ fp ∧ fp ≤ -rd → r = s'.splitShares F d a b (-rd) fp →
      (∀ f ∈ [a, b], 0 ≤ r.awardOf f) ∧ ([a, b].map r.awardOf).sum = -rd ∧
        r.awardOf d = rd := by
    rintro fp ⟨hfp₀, hfp₁⟩ rfl
    have haward : ∀ f, (s'.splitShares F d a b (-rd) fp).awardOf f =
        if f = b then -rd - fp else if f = a then fp else s'.awardOf f := by
      intro f
      simp [SInfo.splitShares]
    simp only [List.mem_cons, List.not_mem_nil, or_false, forall_eq_or_imp,
      forall_eq, List.map_cons, List.map_nil, List.sum_cons, List.sum_nil, haward,
      if_neg hab, if_neg hda, if_neg hdb, if_true, hs']
    refine ⟨⟨by omega, by omega⟩, by omega, trivial⟩
  cases hauto : s.autoBaopeiPos with
  | some pos =>
      obtain ⟨hmem, hzero⟩ := h.baopei h4 pos hauto
      have hauto' : s'.autoBaopeiPos = some pos := hauto
      rw [hauto'] at hr
      rcases List.mem_cons.mp hmem with rfl | hmem
      · have hfind : [pos, b].find? (fun s => decide (s ≠ pos)) = some b := by
          simp [hab.symm]
        simp only [hfind] at hr
        subst hr
        simp only [List.mem_cons, List.not_mem_nil, or_false, forall_eq_or_imp,
          forall_eq, List.map_cons, List.map_nil, List.sum_cons, List.sum_nil,
          SInfo.awardOf_setSurplus, SInfo.awardOf_setAward, if_neg hab, if_true,
          if_neg hdb, hs', if_neg hda.symm, hzero]
        refine ⟨⟨by omega, by omega⟩, by omega, trivial⟩
      · obtain rfl := List.mem_singleton.mp hmem
        have hfind : [a, pos].find? (fun s => decide (s ≠ pos)) = some a := by
          simp [hab]
        simp only [hfind] at hr
        subst hr
        simp only [List.mem_cons, List.not_mem_nil, or_false, forall_eq_or_imp,
          forall_eq, List.map_cons, List.map_nil, List.sum_cons, List.sum_nil,
          SInfo.awardOf_setSurplus, SInfo.awardOf_setAward, if_neg hab.symm,
          if_true, if_neg hda, hs', if_neg hdb.symm, hzero]
        refine ⟨⟨by omega, by omega⟩, by omega, trivial⟩
  | none =>
      have hauto' : s'.autoBaopeiPos = none := hauto
      rw [hauto'] at hr
      have hbal := h.balance h4 hauto
      simp only [List.map_cons, List.map_nil, List.sum_cons, List.sum_nil] at hbal
      dsimp only at hr
      split at hr
      · subst hr
        simp only [List.mem_cons, List.not_mem_nil, or_false, forall_eq_or_imp,
          forall_eq, List.map_cons, List.map_nil, List.sum_cons, List.sum_nil,
          SInfo.awardOf_setSurplus, hs', if_neg hda.symm, if_neg hdb.symm, if_true]
        refine ⟨⟨by omega, by omega⟩, by omega, trivial⟩
      · have hreal : 0 ≤ -rd := by omega
        split at hr
        · refine hsplit _ (F.ceil_share hreal ?_ ?_) hr
          · exact_mod_cast ha
          · have : (0 : ℚ) ≤ s.awardOf b := by exact_mod_cast hb
            linarith
        · refine hsplit _ ?_ hr
          split
          · refine F.ceil_share hreal (by positivity) ?_
            have : (0 : ℚ) ≤ s'.pRate b := by positivity
            linarith
          · exact F.ceil_half hreal

end Pay

/-! ## Zero sum -/

namespace Table

def winners (t : Table) (w : Nat) : List Nat :=
  if w = t.play.dizhu then [t.play.dizhu] else t.others

def losers (t : Table) (w : Nat) : List Nat :=
  if w = t.play.dizhu then t.others else [t.play.dizhu]

private theorem sum_seatList {t : Table} (h : t.play.dizhu ∈ t.cfg.seatList)
    (g : Nat → Int) :
    (t.cfg.seatList.map g).sum = g t.play.dizhu + (t.others.map g).sum := by
  rw [((seatList_perm h).map g).sum_eq, List.map_cons, List.sum_cons]

/-- After a settlement and the payment of the scores the awards add up to zero,
the winners have been paid what was deducted from the losers, and no winning
farmer has a negative award. -/
theorem settlement_zeroSum (F : NumFormat) {t : Table} {w : Nat}
    {caps : Nat → Int} {answer : Nat → Int → Int} (h : t.HasDizhu)
    (hw : w ∈ t.cfg.seatList) (hfresh : t.sInfo.autoBaopeiPos = none)
    (hcaps : ∀ seat, 0 ≤ caps seat)
    (hanswer : ∀ seat asked, asked ≤ 0 →
      asked ≤ answer seat asked ∧ answer seat asked ≤ 0) :
    let r := (t.settlementWith caps w).calculateScore F answer
    (t.cfg.seatList.map r.1.awardOf).sum = 0 ∧
      paidTo (t.winners w) r.2 = takenFrom (t.losers w) r.2 ∧
      (w ≠ t.play.dizhu → ∀ f ∈ t.nongmin, 0 ≤ r.1.awardOf f) := by
  have hw0 : w ≠ 0 := by
    have := List.mem_range'_1.mp hw
    omega
  obtain ⟨hplay, hcfg, hnm, hwin, hs⟩ :=
    settlementWith_settled h hw0 hfresh hcaps
  set u := t.settlementWith caps w
  have hd := t.dizhu_notMem_others
  have hnm' : u.nongmin = t.others := hnm.trans h.nongmin_eq
  simp only [calculateScore, hplay, hnm', hcfg]
  by_cases hwd : w = t.play.dizhu
  · rw [if_pos hwd] at hwin
    obtain ⟨hreal, -, htaken, hpaid⟩ := @deductNongmin_spec answer
      t.cfg.yingfengding t.others t.others t.others_nodup (fun f hf => hf)
      u.sInfo 0 0 []
    set r := deductNongmin answer t.cfg.yingfengding t.others u.sInfo 0 0 []
    simp only [if_pos hwin, winners, losers, if_pos hwd]
    refine ⟨?_, ?_, fun hne => absurd hwd hne⟩
    · rw [sum_seatList h.dizhu_mem]
      have haward : ∀ f ∈ t.others,
          (r.1.setAward t.play.dizhu (-r.2.1)).awardOf f = r.1.awardOf f := by
        intro f hf
        rw [SInfo.awardOf_setAward, if_neg]
        rintro rfl
        exact hd hf
      have hdizhu : (r.1.setAward t.play.dizhu (-r.2.1)).awardOf t.play.dizhu =
          -r.2.1 := by rw [SInfo.awardOf_setAward, if_pos rfl]
      have hsum : (t.others.map
          (r.1.setAward t.play.dizhu (-r.2.1)).awardOf).sum = r.2.1 := by
        rw [List.map_congr_left haward, hreal]
        ring
      split <;>
        exact (congrArg₂ (· + ·) hdizhu hsum).trans (by ring)
    · rw [paidTo_append, hpaid _ hd, paidTo_single, takenFrom_append, htaken,
        takenFrom_single, if_pos (by simp), if_neg hd]
      simp [paidTo, takenFrom]
  · rw [if_neg hwd] at hwin
    have hne5 : ¬ u.sInfo.winner = 5 := by omega
    simp only [if_neg hne5, if_pos hwin, winners, losers, if_neg hwd]
    obtain ⟨hlo, hhi⟩ := hanswer t.play.dizhu _ (hs.pay hwin)
    set rd := answer t.play.dizhu (u.sInfo.awardOf t.play.dizhu)
    obtain ⟨hnn, hsum, hdz⟩ := hs.distribute F hwin hd t.others_nodup
      (fun hg => others_three hg h.dizhu_mem)
      (fun hg => others_er hg h.dizhu_mem) hlo hhi
      (v := some (rd - u.sInfo.awardOf t.play.dizhu)) rfl
    set s := ((u.sInfo.setSurplus t.play.dizhu
      (some (rd - u.sInfo.awardOf t.play.dizhu))).setAward t.play.dizhu
      rd).distribute F t.cfg.gameType t.play.dizhu t.others (-rd)
    obtain ⟨hframe, hpaid, htaken⟩ := @payNongmin_spec answer t.cfg.yingfengding
      t.others t.others (fun f hf => hf) s hnn
      [⟨t.play.dizhu, u.sInfo.awardOf t.play.dizhu, rd⟩]
    set r := payNongmin answer t.cfg.yingfengding t.others s
      [⟨t.play.dizhu, u.sInfo.awardOf t.play.dizhu, rd⟩]
    have hframe' : ∀ f, { r.1 with yingfengdingData := none }.awardOf f =
        s.awardOf f := hframe
    refine ⟨?_, ?_, fun _ f hf => ?_⟩
    · rw [sum_seatList h.dizhu_mem, hframe',
        List.map_congr_left fun f _ => hframe' f, hdz, hsum]
      ring
    · rw [hpaid, htaken _ hd, hsum, paidTo_single, takenFrom_single, if_neg hd,
        if_pos (by simp)]
      ring
    · rw [hframe']
      exact hnn f (h.nongmin_eq ▸ hf)

/-- The farmers win 10 and 30 from a landlord who has only 20, and share them
at their rates 1 and 3. -/
theorem settlement_zeroSum_bankrupt :
    let t : Table :=
      { cfg := { initStake := 10 }, raceCount := 1, nongmin := [2, 3]
        pRate := fun s => [0, 4, 1, 3].getD s 0, play := { dizhu := 1 } }
    let r := (t.settlementWith (fun _ => 100) 2).calculateScore NumFormat.exact
      fun _ asked => max asked (-20)
    r.1.awardOf 1 = -20 ∧ r.1.awardOf 2 = 5 ∧ r.1.awardOf 3 = 15 ∧
      paidTo (t.winners 2) r.2 = takenFrom (t.losers 2) r.2 := by
  refine ⟨by decide +kernel, by decide +kernel, by decide +kernel, ?_⟩
  refine (settlement_zeroSum NumFormat.exact ?_ ?_ ?_ ?_ ?_).2.1
  · exact ⟨by decide, by decide⟩
  · decide
  · rfl
  · intro _
    decide
  · intro _ asked h
    exact ⟨le_max_left .., max_le h (by decide)⟩

end Table

end JyQipai.Ddz
