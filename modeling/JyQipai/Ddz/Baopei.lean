import JyQipai.Ddz.Decided

/-!
# The hosting penalty

`check_baopei` doubles the award of one farmer and clears the other's.  The landlord keeps his
award.  The three awards still add up to zero just in case the two farmers had the same award:
twice the one is then the sum of both.
-/

namespace JyQipai.Ddz

open JyQipai.Lib

namespace Table

/-- The farmer `pos` is hosted and the farmer `other` is not. -/
def Hosts (t : Table) (pos other : Nat) : Prop :=
  t.pAuto pos = some 1 ∧ t.notAuto other = true

instance (t : Table) (pos other : Nat) : Decidable (t.Hosts pos other) :=
  inferInstanceAs (Decidable (_ ∧ _))

def OneHosted (t : Table) : Prop := t.Hosts t.nm1 t.nm2 ∨ t.Hosts t.nm2 t.nm1

instance (t : Table) : Decidable t.OneHosted := inferInstanceAs (Decidable (_ ∨ _))

/-- The landlord keeps the award, the three awards add up to zero, and the hosted farmer `pos`
takes the losses of both farmers, or leaves the gains of both to `other`. -/
def Moves (u v : Table) (pos other : Nat) : Prop :=
  v.sInfo.awardOf u.play.dizhu = u.sInfo.awardOf u.play.dizhu ∧
    (u.cfg.seatList.map v.sInfo.awardOf).sum = 0 ∧
    (u.sInfo.winner = 5 →
      v.sInfo.awardOf pos = u.sInfo.awardOf pos + u.sInfo.awardOf other ∧
        v.sInfo.awardOf other = 0) ∧
    (u.sInfo.winner = 4 →
      v.sInfo.awardOf other = u.sInfo.awardOf pos + u.sInfo.awardOf other ∧
        v.sInfo.awardOf pos = 0)

/-- `check_baopei` moves the award of the hosted farmer, whichever of the two it is. -/
def MovesHosted (u : Table) : Prop :=
  (u.Hosts u.nm1 u.nm2 → u.Moves u.checkBaopei u.nm1 u.nm2) ∧
    (u.Hosts u.nm2 u.nm1 → u.Moves u.checkBaopei u.nm2 u.nm1)

end Table

theorem SInfo.awardOf_baopei_dizhu_wins {s : SInfo} (h5 : s.winner = 5) (pos other f : Nat) :
    (s.baopei pos other).awardOf f =
      if f = other then 0 else if f = pos then s.awardOf pos * 2 else s.awardOf f := by
  rw [SInfo.baopei, if_pos h5, SInfo.awardOf_setAward, SInfo.awardOf_setAward]
  rfl

theorem SInfo.awardOf_baopei_nongmin_win {s : SInfo} (h5 : s.winner ≠ 5) (pos other f : Nat) :
    (s.baopei pos other).awardOf f =
      if f = other then s.awardOf other * 2 else if f = pos then 0 else s.awardOf f := by
  rw [SInfo.baopei, if_neg h5, SInfo.awardOf_setAward, SInfo.awardOf_setAward]
  rfl

namespace Table

theorem moves_baopei_iff {u v : Table} {pos other : Nat} (hd : u.play.dizhu ∈ u.cfg.seatList)
    (hperm : u.others.Perm [pos, other]) (hwin : u.sInfo.winner = 5 ∨ u.sInfo.winner = 4)
    (hzero : u.sInfo.awardOf u.play.dizhu + u.sInfo.awardOf pos + u.sInfo.awardOf other = 0)
    (hv : v.sInfo = u.sInfo.baopei pos other) :
    u.Moves v pos other ↔ u.sInfo.awardOf pos = u.sInfo.awardOf other := by
  have hseats : u.cfg.seatList.Perm [u.play.dizhu, pos, other] :=
    (seatList_perm hd).trans (hperm.cons _)
  have hnodup : [u.play.dizhu, pos, other].Nodup :=
    hseats.nodup_iff.mp List.nodup_range'
  obtain ⟨⟨hdp, hdo⟩, hpo⟩ :
      (u.play.dizhu ≠ pos ∧ u.play.dizhu ≠ other) ∧ pos ≠ other := by
    simpa using hnodup
  have hsum : (u.cfg.seatList.map v.sInfo.awardOf).sum =
      v.sInfo.awardOf u.play.dizhu + v.sInfo.awardOf pos + v.sInfo.awardOf other := by
    rw [(hseats.map _).sum_eq]
    simp [add_assoc]
  rw [Moves, hsum, hv]
  rcases hwin with h5 | h4
  · have haward := u.sInfo.awardOf_baopei_dizhu_wins h5 pos other
    rw [haward, haward, haward, if_neg hdo, if_neg hdp, if_neg hpo, if_pos rfl, if_pos rfl]
    constructor
    · rintro ⟨-, hzero', -⟩
      omega
    · intro heq
      exact ⟨rfl, by omega, fun _ => ⟨by omega, rfl⟩, fun h4 => by omega⟩
  · have haward := SInfo.awardOf_baopei_nongmin_win (s := u.sInfo) (by omega) pos other
    rw [haward, haward, haward, if_neg hdo, if_neg hdp, if_neg hpo, if_pos rfl, if_pos rfl]
    constructor
    · rintro ⟨-, hzero', -⟩
      omega
    · intro heq
      exact ⟨rfl, by omega, fun h5 => by omega, fun _ => ⟨by omega, rfl⟩⟩

theorem notAuto_ne_one {t : Table} {seat : Nat} (h : t.notAuto seat = true) :
    t.pAuto seat ≠ some 1 := by
  intro h1
  rw [notAuto, h1] at h
  cases h

/-- The factor of the farmers' rates in the awards of a hand won by `w`. -/
def awardSign (t : Table) (w : Nat) : Int := if w = t.play.dizhu then -1 else 1

theorem awardOf_winAwards (t : Table) (w f : Nat) :
    (t.winAwards w).sInfo.awardOf f = ((t.chuntian w).fixRate).awards (t.awardSign w) f := by
  by_cases hw : w = t.play.dizhu
  · simp only [winAwards, awardSign, hw, decide_true, if_true, SInfo.awardOf, Option.getD_some]
  · simp only [winAwards, awardSign, hw, decide_false, if_false, SInfo.awardOf,
      Option.getD_some, Bool.false_eq_true]

theorem checkBaopei_moves_iff {t : Table} {w : Nat} (h : t.HasDizhu)
    (hgame : t.cfg.gameType ≠ .er) (hbaopei : t.cfg.baopei = true) (hone : t.OneHosted) :
    (t.winAwards w).MovesHosted ↔
      (t.winAwards w).pRate t.nm1 = (t.winAwards w).pRate t.nm2 ∨ t.cfg.initStake = 0 := by
  obtain ⟨a, b, hab⟩ := others_three hgame h.dizhu_mem
  have ha : t.nm1 = a := by rw [nm1, h.nongmin_eq, hab]; rfl
  have hb : t.nm2 = b := by rw [nm2, h.nongmin_eq, hab]; rfl
  have hothers : t.others = [t.nm1, t.nm2] := by rw [ha, hb, hab]
  set u := t.winAwards w with hu
  have hwin : u.sInfo.winner = 5 ∨ u.sInfo.winner = 4 := by
    rw [hu]
    by_cases hw : w = t.play.dizhu <;> simp [winAwards, hw]
  have haward (f : Nat) (hf : f ∈ t.others) :
      u.sInfo.awardOf f = t.awardSign w * ((u.pRate f * t.cfg.initStake : Nat) : Int) := by
    rw [hu, awardOf_winAwards]
    exact ((t.chuntian w).fixRate).awards_others _ hf
  have hzero : u.sInfo.awardOf t.play.dizhu + u.sInfo.awardOf t.nm1 +
      u.sInfo.awardOf t.nm2 = 0 := by
    have hdizhu : u.sInfo.awardOf t.play.dizhu = -(t.others.map u.sInfo.awardOf).sum := by
      rw [List.map_congr_left fun f _ => t.awardOf_winAwards w f, hu, awardOf_winAwards]
      exact ((t.chuntian w).fixRate).awards_dizhu _
    rw [hdizhu, hothers]
    simp
  have hequal : u.sInfo.awardOf t.nm1 = u.sInfo.awardOf t.nm2 ↔
      u.pRate t.nm1 = u.pRate t.nm2 ∨ t.cfg.initStake = 0 := by
    have hsign : t.awardSign w ≠ 0 := by
      unfold awardSign
      split <;> decide
    rw [haward _ (by simp [hothers]), haward _ (by simp [hothers]), mul_right_inj' hsign,
      Nat.cast_inj, mul_eq_mul_right_iff]
  rw [← hequal]
  have hcheck : u.cfg.baopei = true ∧ (u.sInfo.winner = 5 ∨ u.sInfo.winner = 4) ∧
      u.cfg.gameType ≠ .er := ⟨hbaopei, hwin, hgame⟩
  have hperm : u.others.Perm [t.nm1, t.nm2] := hothers ▸ .refl _
  rcases hone with hhost | hhost
  · have hnot : ¬ t.Hosts t.nm2 t.nm1 := fun h => notAuto_ne_one h.2 hhost.1
    have hv : u.checkBaopei.sInfo = u.sInfo.baopei t.nm1 t.nm2 := by
      rw [checkBaopei]
      exact if_pos ⟨decide_eq_true hcheck, hhost⟩
    rw [← moves_baopei_iff (u := u) h.dizhu_mem hperm hwin hzero hv]
    exact ⟨fun hm => hm.1 hhost, fun hm => ⟨fun _ => hm, fun h => absurd h hnot⟩⟩
  · have hnot : ¬ t.Hosts t.nm1 t.nm2 := fun h => notAuto_ne_one h.2 hhost.1
    have hv : u.checkBaopei.sInfo = u.sInfo.baopei t.nm2 t.nm1 := by
      rw [checkBaopei]
      exact (if_neg fun h => hnot h.2).trans
        (if_pos ⟨decide_eq_true hcheck, hhost.2, hhost.1⟩)
    have hzero' : u.sInfo.awardOf u.play.dizhu + u.sInfo.awardOf t.nm2 +
        u.sInfo.awardOf t.nm1 = 0 := (add_right_comm ..).trans hzero
    have hmoves := moves_baopei_iff (u := u) h.dizhu_mem (hperm.trans (.swap ..)) hwin hzero' hv
    rw [eq_comm (a := u.sInfo.awardOf t.nm1), ← hmoves]
    exact ⟨fun hm => hm.2 hhost, fun hm => ⟨fun h => absurd h hnot, fun _ => hm⟩⟩

/-! ## A hand that has been played out -/

theorem won_hasDizhu {t : Table} {seat : Nat} {a : ChupaiArgs} (hi : t.Inv)
    (hwins : t.Wins seat a) : (t.won seat a).cfg = t.cfg ∧ (t.won seat a).HasDizhu := by
  have hplays : Plays t (t.libChupai seat a).table (a.act seat) := by
    rcases t.libChupai_spec seat a with ⟨-, hres⟩ | ⟨hplays, -⟩
    · rw [hwins.result] at hres
      simp at hres
    · exact hplays
  have hcp : t.InStatus .cp := hwins.turn.1 ▸ hi.status
  obtain ⟨hmem, hnongmin, -⟩ := hi.base.dizhu hcp
  have hcfg : (t.won seat a).cfg = t.cfg := by simp [won, hplays.cfg]
  have hdizhu : (t.won seat a).play.dizhu = t.play.dizhu := by simp [won, hplays.dizhu]
  have hothers : (t.won seat a).others = t.others := by rw [others, hcfg, hdizhu, others]
  refine ⟨hcfg, by rw [hcfg, hdizhu]; exact hmem, ?_⟩
  rw [hothers, ← hnongmin]
  simp [won, hplays.hand]

/-- So it is in every hand that is won with one farmer hosted. -/
theorem Reachable.penalty_moves_iff {F : NumFormat} {cfg : Config} {t : Table} {seat : Nat}
    {a : ChupaiArgs} (h : Reachable F cfg t) (hwins : t.Wins seat a)
    (hgame : t.cfg.gameType ≠ .er) (hbaopei : t.cfg.baopei = true)
    (hone : (t.won seat a).OneHosted) :
    ((t.won seat a).winAwards seat).MovesHosted ↔
      ((t.won seat a).winAwards seat).pRate (t.won seat a).nm1 =
          ((t.won seat a).winAwards seat).pRate (t.won seat a).nm2 ∨
        t.cfg.initStake = 0 := by
  obtain ⟨hcfg, hdizhu⟩ := won_hasDizhu h.inv hwins
  rw [← hcfg] at hgame hbaopei ⊢
  exact checkBaopei_moves_iff hdizhu hgame hbaopei hone

/-! ## A farmer who has doubled -/

def hostedConfig : Config := { baopei := true, jiaBei := true }

/-- The first seat becomes landlord, the second doubles by `rate`, the third is hosted, and the
landlord gets rid of all cards at once. -/
def hostedHand (rate : Nat) : List Event :=
  pairsBid ++ [.jiabei 1 0, .jiabei 2 rate, .jiabei 3 0, .update 0, .auto 3 1]

def hostedWon (rate : Nat) : Table := (after hostedConfig (hostedHand rate)).won 1 pairsPlay

theorem hostedHand_wins (rate : Nat) (h : rate ∈ [0, 2]) :
    Reachable .exact hostedConfig (after hostedConfig (hostedHand rate)) ∧
      (after hostedConfig (hostedHand rate)).Wins 1 pairsPlay := by
  simp only [List.mem_cons, List.not_mem_nil, or_false] at h
  rcases h with rfl | rfl <;>
    exact ⟨reachable_after (by decide +kernel),
      ⟨by decide +kernel, ⟨by decide +kernel, by decide +kernel⟩, by decide +kernel⟩⟩

theorem Reachable.penalty_undoubled : ((hostedWon 0).winAwards 1).MovesHosted :=
  have ⟨hreach, hwins⟩ := hostedHand_wins 0 (by simp)
  (hreach.penalty_moves_iff hwins (by decide +kernel) (by decide +kernel)
    (by decide +kernel)).mpr (.inl (by decide +kernel))

/-- The farmers lose 12 and 6.  The hosted one pays 12 for both, and the landlord gets 18. -/
theorem penalty_loses_doubled :
    Reachable .exact hostedConfig (after hostedConfig (hostedHand 2)) ∧
      (after hostedConfig (hostedHand 2)).Wins 1 pairsPlay ∧ (hostedWon 2).OneHosted ∧
      [1, 2, 3].map ((hostedWon 2).winAwards 1).sInfo.awardOf = [18, -12, -6] ∧
      [1, 2, 3].map ((hostedWon 2).winAwards 1).checkBaopei.sInfo.awardOf = [18, 0, -12] ∧
      ¬ ((hostedWon 2).winAwards 1).MovesHosted := by
  have hawards : [1, 2, 3].map ((hostedWon 2).winAwards 1).checkBaopei.sInfo.awardOf =
      [18, 0, -12] := by decide +kernel
  have ⟨hreach, hwins⟩ := hostedHand_wins 2 (by simp)
  refine ⟨hreach, hwins, by decide +kernel, by decide +kernel, hawards, fun hm => ?_⟩
  have hzero := (hm.2 (by decide +kernel)).2.1
  rw [show ((hostedWon 2).winAwards 1).cfg.seatList = [1, 2, 3] by decide +kernel, hawards]
    at hzero
  exact absurd hzero (by decide)

end Table

end JyQipai.Ddz
