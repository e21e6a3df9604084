import JyQipai.Ddz.Turn
import JyQipai.Ddz.ZeroSum

/-!
# A decided hand

From the winning play to the payment the table is in the status `cp`, where
`settlement` waits for the win caps, then in `wait`, and at last in `settlement`.
In the first two the table can be dissolved, which settles the hand anew without
a winner, and in the first one plays are still accepted.  If neither happens, the
payment is made with the result of the winning play.
-/

namespace JyQipai.Ddz

open JyQipai.Lib

namespace Table

/-- While the winner of a hand stands, the table is not dissolved before the
payment and no further play is accepted. -/
def LeavesDecided (t : Table) : Event → Prop
  | .chupai seat a => t.sInfo.winner ≠ 0 →
      ¬ (t.status = .cp ∧ t.play.curP = seat ∧
        checkChupaiSafe t.cfg.gameType t.play.actList a.type a.keyPai = some true)
  | .breakGame => t.sInfo.winner ≠ 0 → t.status = .settlement ∨ t.status = .gameover
  | .overTimeCancelGame =>
      t.sInfo.winner ≠ 0 → t.status = .settlement ∨ t.status = .gameover
  | _ => True

def Respects (t : Table) (e : Event) : Prop := t.Legal e ∧ t.LeavesDecided e

/-- The event does not run `calculate_score`. -/
def Unpaid (t : Table) : Event → Prop
  | .scoreAnswer _ => t.updating ≠ some .score
  | _ => True

structure Wins (t : Table) (seat : Nat) (a : ChupaiArgs) : Prop where
  here : t.gone = false
  turn : t.MayAct (.chupai seat a)
  result : (t.libChupai seat a).result = some 1

/-- The table for which `settlement` is called after a winning play. -/
def won (t : Table) (seat : Nat) (a : ChupaiArgs) : Table :=
  let t := (t.libChupai seat a).table.countPlay seat a.type
  t.sendAll fun _ => .cp t.lastAct (t.pRate seat)

/-! ## The answers to the win caps -/

def asked (t : Table) : Pending → Nat
  | .capNongmin ((k, _) :: _) _ => k
  | .capNongmin [] _ => 0
  | .capDizhu => t.play.dizhu

def capOf (t : Table) : Event → List (Nat × Int)
  | .capAnswer call answer => if call ∈ t.pending then [(t.asked call, answer)] else []
  | _ => []

def capsOf (F : NumFormat) : Table → List Event → List (Nat × Int)
  | _, [] => []
  | t, e :: es => t.capOf e ++ capsOf F (t.step F e) es

def Agrees (caps : Nat → Int) (given : List (Nat × Int)) : Prop :=
  ∀ c ∈ given, caps c.1 = c.2

/-! ## Events without effect on the result -/

structure Untouched (t u : Table) : Prop where
  cfg : u.cfg = t.cfg
  play : u.play = t.play
  hand : u.toHand = t.toHand
  ctrl : u.toCtrl = t.toCtrl

section Untouched

variable {t : Table} {F : NumFormat}

theorem Untouched.refl (t : Table) : Untouched t t := ⟨rfl, rfl, rfl, rfl⟩

theorem chupai_of_refused {p : Nat} {a : ChupaiArgs}
    (h : checkChupaiSafe t.cfg.gameType t.play.actList a.type a.keyPai ≠ some true) :
    (t.chupai p a).table = t := by
  unfold chupai libChupai
  split
  · rfl
  · cases hcheck : checkChupaiSafe t.cfg.gameType t.play.actList a.type a.keyPai with
    | none => rfl
    | some ok =>
        cases ok with
        | true => exact absurd hcheck h
        | false => rfl

theorem breakGame_untouched (h : t.status = .settlement ∨ t.status = .gameover) :
    Untouched t t.breakGame.table := by
  unfold breakGame
  rcases h with h | h
  · simp only [h]
    exact ⟨rfl, rfl, rfl, rfl⟩
  · simp only [h]
    exact .refl t

theorem untouched_step (hw : t.sInfo.winner ≠ 0)
    (hs : t.status = .cp ∨ t.status = .wait ∨ t.status = .settlement) {e : Event}
    (he : t.Respects e) (hcap : t.capOf e = [])
    (htimer : ∀ rand, e = .update rand → ¬ (t.time ∧ t.updating = none))
    (hdeal : t.updating ≠ some .fapai) (hpay : t.Unpaid e) : Untouched t (t.step F e) := by
  obtain ⟨hlegal, hleaves⟩ := he
  have hnot : ∀ s : Status, s ≠ .cp → s ≠ .wait → s ≠ .settlement → t.status ≠ s := by
    rintro s h1 h2 h3 rfl
    rcases hs with hs | hs | hs
    · exact h1 hs
    · exact h2 hs
    · exact h3 hs
  unfold Table.step
  split
  · exact .refl t
  · cases e with
    | join id seat =>
        simp only [handle, Table.join]
        rw [if_pos (.inr (.inl (hnot .waitP (by decide) (by decide) (by decide))))]
        exact .refl t
    | playerExitGame seat =>
        simp only [handle, Table.playerExitGame]
        split
        · exact ⟨rfl, rfl, rfl, rfl⟩
        · exact ⟨rfl, rfl, rfl, rfl⟩
    | ready seat =>
        rcases hlegal.2 with h | h
        · exact absurd h (hnot .waitP (by decide) (by decide) (by decide))
        · exact absurd h (hnot .ready (by decide) (by decide) (by decide))
    | jiaoDizhu seat rate =>
        simp only [handle, Table.jiaoDizhu]
        rw [if_pos (hnot .jdz (by decide) (by decide) (by decide))]
        exact .refl t
    | jiabei seat rate =>
        simp only [handle, Table.jiabei]
        rw [if_pos (.inl (hnot .jiabei (by decide) (by decide) (by decide)))]
        exact .refl t
    | men seat opt =>
        simp only [handle, Table.men]
        rw [if_pos (.inl (hnot .mldMen (by decide) (by decide) (by decide)))]
        exact .refl t
    | zhuaPai seat opt =>
        simp only [handle, Table.zhuaPai]
        rw [if_pos (.inl (hnot .mldMen (by decide) (by decide) (by decide)))]
        exact .refl t
    | daoLa seat opt =>
        simp only [handle, Table.daoLa]
        rw [if_pos (hnot .mldJb (by decide) (by decide) (by decide))]
        exact .refl t
    | erQiangDizhu seat rate =>
        simp only [handle, Table.erQiangDizhu]
        rw [if_pos (hnot .erQiangdizhu (by decide) (by decide) (by decide))]
        exact .refl t
    | chupai seat a =>
        have hsame : (t.chupai seat a).table = t := by
          by_cases hturn : t.status = .cp ∧ t.play.curP = seat
          · exact chupai_of_refused fun hcheck =>
              hleaves hw ⟨hturn.1, hturn.2, hcheck⟩
          · unfold Table.chupai
            rw [if_pos (not_and_or.mp hturn)]
            rfl
        simp only [handle, hsame]
        exact .refl t
    | auto seat type => exact ⟨rfl, rfl, rfl, rfl⟩
    | cancelGame =>
        simp only [handle, Table.cancelGame]
        rw [if_pos (hnot .waitP (by decide) (by decide) (by decide))]
        exact .refl t
    | breakGame => exact breakGame_untouched (hleaves hw)
    | overTimeCancelGame =>
        simp only [handle, Table.overTimeCancelGame]
        rw [if_neg (hnot .waitP (by decide) (by decide) (by decide))]
        exact breakGame_untouched (hleaves hw)
    | update rand =>
        simp only [handle, Table.update]
        rw [if_neg (htimer rand rfl)]
        exact .refl t
    | fapaiAnswer ρ rand =>
        simp only [handle]
        rw [if_neg hdeal]
        exact .refl t
    | capAnswer call answer =>
        have hno : call ∉ t.pending := by
          intro hmem
          simp [capOf, hmem] at hcap
        simp only [handle]
        rw [if_neg hno]
        exact .refl t
    | scoreAnswer answer =>
        simp only [handle]
        rw [if_neg hpay]
        exact .refl t

end Untouched

section Pending

variable {t : Table}

theorem pending_newGame (t : Table) (again : Bool) :
    (t.newGame again).pending = t.pending := by
  unfold newGame gameBegin
  dsimp only
  split
  · simp
  · simp

theorem pending_settlement_zero (t : Table) : (t.settlement 0).pending = t.pending := by
  unfold settlement settleAwards
  simp

theorem pending_noDizhu (t : Table) : t.noDizhu.pending = t.pending := by
  unfold noDizhu
  dsimp only
  split
  · rw [pending_settlement_zero]
  · rw [pending_newGame]
    simp

theorem pending_jiaoDizhu (t : Table) (p rate : Nat) :
    (t.jiaoDizhu p rate).table.pending = t.pending := by
  have hctrl := t.libJiaoDizhu_toCtrl p rate
  unfold jiaoDizhu
  split
  · rfl
  · generalize t.libJiaoDizhu p rate = q at hctrl
    obtain ⟨status, u⟩ := q
    have hp : u.pending = t.pending := congrArg Ctrl.pending hctrl
    dsimp only
    split
    · exact hp
    · split
      · rw [reply_table, pending_noDizhu]
        simpa using hp
      · split
        · split
          · split <;> simpa using hp
          · unfold afterBidding
            split
            · simpa using hp
            · split <;> simpa using hp
        · simpa using hp

theorem pending_erQiangDizhu (t : Table) (p rate : Nat) :
    (t.erQiangDizhu p rate).table.pending = t.pending := by
  unfold erQiangDizhu
  split
  · rfl
  · obtain ⟨v, hbids, -, hspec⟩ := t.libErQiangDizhu_spec p rate
    have hv : v.pending = t.pending := congrArg Ctrl.pending hbids.toCtrl
    rcases hspec with heq | heq | heq
    all_goals
      rw [heq]
      dsimp only
      split <;> simpa using hv

theorem pending_men (t : Table) (p opt : Nat) :
    (t.men p opt).table.pending = t.pending := by
  unfold men
  split
  · rfl
  · split
    · rfl
    · split
      · dsimp only
        split <;> simp [startCp]
      · split
        · rfl
        · simp

theorem pending_zhuaPai (t : Table) (p opt : Nat) :
    (t.zhuaPai p opt).table.pending = t.pending := by
  unfold zhuaPai
  split
  · rfl
  · split <;> simp

theorem pending_dao (t : Table) (p opt : Nat) :
    (t.dao p opt).table.pending = t.pending := by
  unfold dao
  split
  · rfl
  · dsimp only
    generalize (if 0 < opt then OtherType.mldDao else OtherType.mldBd) = type
    split
    · split <;> simp [startCp]
    · simp

theorem pending_la (t : Table) (p opt : Nat) : (t.la p opt).table.pending = t.pending := by
  have hend : ∀ u : Table, (u.laEnd p opt).table.pending = u.pending := by
    intro u
    simp [laEnd, startCp]
  have hrate : ∀ (u v : Table) (s : Nat), u.laRate s = some v → v.pending = u.pending := by
    intro u v s h
    obtain ⟨opt, -, rfl⟩ := Option.map_eq_some_iff.mp h
    simp
  unfold la
  split
  · dsimp only
    split
    · simp
    · next u hu =>
      split
      · simpa using hrate _ _ _ hu
      · next v hv =>
        rw [hend]
        simpa using (hrate _ _ _ hv).trans (hrate _ _ _ hu)
  · exact hend t

theorem pending_daoLa (t : Table) (p opt : Nat) :
    (t.daoLa p opt).table.pending = t.pending := by
  unfold daoLa
  split
  · rfl
  · dsimp only
    split
    · simp
    · split
      · simp
      · split
        · rw [pending_la]
          simp
        · rw [pending_dao]
          simp

theorem pending_jiabei (t : Table) (p rate : Nat) :
    (t.jiabei p rate).table.pending = t.pending := by
  unfold jiabei
  split
  · rfl
  · unfold libJiabei
    dsimp only
    split
    · split <;> simp
    · simp

theorem pending_breakGame (t : Table) : t.breakGame.table.pending = t.pending := by
  unfold breakGame
  split
  · rfl
  · dsimp only
    split
    · simp [gameover]
    · split
      · rw [reply_table, pending_settlement_zero]
      · rfl

theorem pending_cancelGame (t : Table) : t.cancelGame.table.pending = t.pending := by
  unfold cancelGame
  split
  · rfl
  · simp [gamecancel]

theorem pending_update (t : Table) (rand : Nat) :
    (t.update rand).pending = t.pending := by
  unfold update
  split
  · dsimp only
    split
    · rfl
    · next s _ =>
      cases s <;> simp [changeStatus, gameBegin, mldMenPermit, mldJbPermit, createLz,
        chupaiPermit, gameover, gamecancel]
  · rfl

/-- At most one call of `settlement` waits for its answer, and only after a hand
has been won. -/
def OneCall (t : Table) : Prop :=
  t.pending = [] ∨ t.status = .cp ∧ t.sInfo.winner ≠ 0 ∧ ∃ call, t.pending = [call]

theorem winner_settleAwards {seat : Nat} (hseat : seat ≠ 0) :
    (t.settleAwards seat).sInfo.winner = if seat = t.play.dizhu then 5 else 4 := by
  unfold settleAwards checkBaopei
  rw [if_neg hseat]
  dsimp only
  split
  · rw [SInfo.winner_baopei]
    simp [winAwards]
  · split
    · rw [SInfo.winner_baopei]
      simp [winAwards]
    · simp [winAwards]

theorem oneCall_settlement (hp : t.pending = []) (hs : t.status = .cp) (seat : Nat) :
    OneCall (t.settlement seat) := by
  obtain ⟨-, hctrl⟩ := t.settleAwards_sameHand seat
  have hp' : (t.settleAwards seat).pending = [] := (congrArg Ctrl.pending hctrl).trans hp
  have hs' : (t.settleAwards seat).status = .cp := (congrArg Ctrl.status hctrl).trans hs
  unfold settlement
  dsimp only
  split
  · split
    · next hfour =>
      split
      · exact .inl (by simpa using hp')
      · exact .inr ⟨hs', by simp [hfour], _, by rw [hp']; rfl⟩
    · split
      · next hfive => exact .inr ⟨hs', by simp [hfive], _, by rw [hp']; rfl⟩
      · exact .inl (by simpa using hp')
  · exact .inl (by simpa using hp')

theorem OneCall.chupai (hp : t.pending = []) (seat : Nat) (a : ChupaiArgs) :
    OneCall (t.chupai seat a).table := by
  unfold Table.chupai
  split
  · exact .inl hp
  · next hturn =>
    have hs : t.status = .cp := by
      simp only [not_or, not_not] at hturn
      exact hturn.1
    have hctrl : (t.libChupai seat a).table.toCtrl = t.toCtrl := by
      rcases t.libChupai_spec seat a with ⟨heq, -⟩ | ⟨hplays, -⟩
      · rw [heq]
      · exact hplays.toCtrl
    generalize t.libChupai seat a = q at hctrl
    obtain ⟨res, u⟩ := q
    have hup : u.pending = [] := (congrArg Ctrl.pending hctrl).trans hp
    have hus : u.status = .cp := (congrArg Ctrl.status hctrl).trans hs
    cases res with
    | none => exact .inl hup
    | some status =>
        dsimp only
        split
        · split
          · exact oneCall_settlement (by simpa using hup) (by simpa using hus) seat
          · exact .inl (by simpa using hup)
        · exact .inl hup

theorem OneCall.resume (hp : t.pending = []) (hs : t.status = .cp)
    (hw : t.sInfo.winner ≠ 0) (answer : Int) (call : Pending) :
    OneCall (t.resumeSettlement answer call) := by
  unfold resumeSettlement
  split
  · split
    · exact .inl hp
    · dsimp only
      split
      · exact .inl (by simpa using hp)
      · refine .inr ⟨hs, ?_, _, by rw [hp]; rfl⟩
        rw [(SInfo.winner_cap ..).1]
        exact hw
  · split
    · exact .inl hp
    · exact .inl (by simpa using hp)
  · exact .inl hp

theorem OneCall.step (h : t.OneCall) (hi : t.Inv) (F : NumFormat) {e : Event}
    (he : t.Respects e) : (t.step F e).OneCall := by
  rcases h with hp | ⟨hs, hw, call, hcall⟩
  · unfold Table.step
    split
    · exact .inl hp
    · cases e with
      | join id seat =>
          simp only [handle, Table.join]
          split
          · exact .inl hp
          · split
            · exact .inl hp
            · exact .inl hp
      | playerExitGame seat =>
          simp only [handle, Table.playerExitGame]
          split
          · exact .inl hp
          · exact .inl hp
      | ready seat =>
          simp only [handle, readyCmd]
          split
          · split
            · exact .inl (by simpa [gameBegin] using hp)
            · exact .inl hp
          · exact .inl hp
      | jiaoDizhu seat rate => exact .inl ((t.pending_jiaoDizhu seat rate).trans hp)
      | jiabei seat rate => exact .inl ((t.pending_jiabei seat rate).trans hp)
      | men seat opt => exact .inl ((t.pending_men seat opt).trans hp)
      | zhuaPai seat opt => exact .inl ((t.pending_zhuaPai seat opt).trans hp)
      | daoLa seat opt => exact .inl ((t.pending_daoLa seat opt).trans hp)
      | erQiangDizhu seat rate => exact .inl ((t.pending_erQiangDizhu seat rate).trans hp)
      | chupai seat a => exact OneCall.chupai hp seat a
      | auto seat type => exact .inl hp
      | cancelGame => exact .inl (t.pending_cancelGame.trans hp)
      | breakGame => exact .inl (t.pending_breakGame.trans hp)
      | overTimeCancelGame =>
          simp only [handle, Table.overTimeCancelGame]
          split
          · exact .inl (t.pending_cancelGame.trans hp)
          · exact .inl (t.pending_breakGame.trans hp)
      | update rand => exact .inl ((t.pending_update rand).trans hp)
      | fapaiAnswer ρ rand =>
          simp only [handle]
          split
          · unfold fapai
            dsimp only
            split
            · exact .inl (by simpa using hp)
            · exact .inl (by simpa using hp)
          · exact .inl hp
      | capAnswer call answer =>
          simp only [handle]
          rw [if_neg (by simp [hp])]
          exact .inl hp
      | scoreAnswer answer =>
          simp only [handle]
          split
          · unfold settlementFinish nextGame
            dsimp only
            split
            · rw [reply_table, OneCall, pending_newGame]
              exact .inl hp
            · exact .inl hp
          · exact .inl hp
  · obtain ⟨htime, hup⟩ := hi.quiet (by simp [hs]) (by simp [hs]) (by simp [hs])
    by_cases hcap : t.capOf e = []
    · have hidle := untouched_step (F := F) hw (.inl hs) he hcap (by simp [htime])
        (by simp [hup]) (by cases e <;> simp [Unpaid, hup])
      refine .inr ⟨?_, ?_, call, ?_⟩
      · rw [hidle.ctrl, hs]
      · rw [hidle.hand]
        exact hw
      · rw [hidle.ctrl, hcall]
    · cases e with
      | capAnswer call' answer =>
          have hmem : call' ∈ t.pending := by
            by_contra hno
            simp [capOf, hno] at hcap
          unfold Table.step
          split
          · exact .inr ⟨hs, hw, call, hcall⟩
          · simp only [handle]
            rw [if_pos hmem]
            rw [hcall, List.mem_singleton] at hmem
            exact OneCall.resume (t := { t with pending := t.pending.erase call' })
              (by simp [hcall, hmem]) hs hw answer call'
      | _ => exact absurd rfl hcap

end Pending

section Decided

variable {t u v : Table} {F : NumFormat} {seat : Nat} {given : List (Nat × Int)}

/-- The farmers that have won are asked one after the other: the rest of the loop
leads to the result of the whole loop. -/
structure AsksNongmin (u : Table) (seat : Nat) (given : List (Nat × Int)) (v : Table)
    (todo : List (Nat × Int)) (all : Int) : Prop where
  capped : u.cfg.yingfengding = true
  won : (u.settleAwards seat).sInfo.winner = 4
  status : v.status = .cp
  pending : v.pending = [.capNongmin todo all]
  left : todo ≠ []
  keys : (given.map Prod.fst ++ todo.map Prod.fst).Nodup
  award : v.sInfo.award ≠ none
  caps : ∃ caps, Agrees caps given
  rest : ∀ caps, Agrees caps given → capNongmin caps todo all v.sInfo =
    capNongmin caps ((u.settleAwards seat).awardList (0 < ·)) 0 (u.settleAwards seat).sInfo

structure AsksDizhu (u : Table) (seat : Nat) (given : List (Nat × Int)) (v : Table) :
    Prop where
  capped : u.cfg.yingfengding = true
  won : (u.settleAwards seat).sInfo.winner = 5
  status : v.status = .cp
  pending : v.pending = [.capDizhu]
  given : given = []
  award : v.sInfo.award ≠ none
  sInfo : v.sInfo = (u.settleAwards seat).sInfo

structure Stands (u : Table) (seat : Nat) (given : List (Nat × Int)) (v : Table) :
    Prop where
  status : v.status = .wait ∧ v.nextStatus = some .settlement ∧ v.updating = none ∨
    v.status = .settlement ∧ v.updating = some .score
  pending : v.pending = []
  sInfo : ∃ caps, Agrees caps given ∧ v.sInfo = (u.settlementWith caps seat).sInfo

/-- The table `v` comes from the settlement of `u`, with the win caps `given`. -/
structure Decided (u : Table) (seat : Nat) (given : List (Nat × Int)) (v : Table) :
    Prop where
  here : v.gone = false
  cfg : v.cfg = u.cfg
  play : v.play = u.play
  pRate : v.pRate = (u.settleAwards seat).pRate
  winner : v.sInfo.winner = (u.settleAwards seat).sInfo.winner
  stage : (∃ todo all, AsksNongmin u seat given v todo all) ∨ AsksDizhu u seat given v ∨
    Stands u seat given v

theorem award_settleAwards (hseat : seat ≠ 0) : (u.settleAwards seat).sInfo.award ≠ none := by
  unfold settleAwards checkBaopei
  rw [if_neg hseat]
  dsimp only
  split
  · unfold SInfo.baopei
    split <;> simp [SInfo.setAward]
  · split
    · unfold SInfo.baopei
      split <;> simp [SInfo.setAward]
    · simp [winAwards]

theorem decided_settlement (hseat : seat ≠ 0) (hgone : u.gone = false) (hp : u.pending = [])
    (hs : u.status = .cp) (hup : u.updating = none) : Decided u seat [] (u.settlement seat) := by
  obtain ⟨hsame, hctrl⟩ := u.settleAwards_sameHand seat
  have hp' : (u.settleAwards seat).pending = [] := (congrArg Ctrl.pending hctrl).trans hp
  have hs' : (u.settleAwards seat).status = .cp := (congrArg Ctrl.status hctrl).trans hs
  have hup' : (u.settleAwards seat).updating = none :=
    (congrArg Ctrl.updating hctrl).trans hup
  have hgone' : (u.settleAwards seat).gone = false := (congrArg Ctrl.gone hctrl).trans hgone
  have hnil : ∀ caps : Nat → Int, Agrees caps [] := by
    intro caps c hc
    cases hc
  have hwin := winner_settleAwards (t := u) hseat
  have hfinal : ∀ x : Table, x.pending = [] →
      (x.status = .wait ∧ x.nextStatus = some .settlement ∧ x.updating = none) →
      x.sInfo = (u.settlementWith (fun _ => 0) seat).sInfo → Stands u seat [] x :=
    fun x hxp hxs hx => ⟨.inl hxs, hxp, _, hnil _, hx⟩
  have hcfg : (u.settleAwards seat).cfg.yingfengding = u.cfg.yingfengding := by
    rw [hsame.cfg]
  unfold settlement
  dsimp only
  split
  · next hcap =>
    rw [hcfg] at hcap
    split
    · next hfour =>
      split
      · next hempty =>
        refine ⟨by simpa using hgone', by simpa using hsame.cfg, by simpa using hsame.play,
          by simp, by simp [SInfo.setAward], .inr (.inr (hfinal _ ?_ ?_ ?_))⟩
        · simpa using hp'
        · simpa using hup'
        · unfold settlementWith
          dsimp only
          rw [hcfg, if_pos hcap, if_pos hfour, hempty]
          rfl
      · next hne =>
        refine ⟨hgone', hsame.cfg, hsame.play, rfl, rfl, .inl ⟨_, 0, hcap, hfour, hs', ?_, ?_, ?_,
          award_settleAwards hseat, ⟨fun _ => 0, hnil _⟩, fun _ _ => rfl⟩⟩
        · rw [hp']
          rfl
        · exact hne
        · rw [List.map_nil, List.nil_append, awardList_fst]
          exact List.Nodup.filter _ List.nodup_range'
    · split
      · next hfive =>
        refine ⟨hgone', hsame.cfg, hsame.play, rfl, rfl, .inr (.inl ⟨hcap, hfive, hs', ?_, rfl,
          award_settleAwards hseat, rfl⟩)⟩
        rw [hp']
        rfl
      · next hfour hfive =>
        rw [hwin] at hfour hfive
        split at hfour
        · next hd => exact absurd (if_pos hd) hfive
        · exact absurd rfl hfour
  · next hcap =>
    rw [hcfg] at hcap
    refine ⟨by simpa using hgone', by simpa using hsame.cfg, by simpa using hsame.play,
      by simp, by simp,
      .inr (.inr (hfinal _ ?_ ?_ ?_))⟩
    · simpa using hp'
    · simpa using hup'
    · unfold settlementWith
      dsimp only
      rw [hcfg, if_neg hcap]

theorem Untouched.decided (h : Untouched v t) (hd : Decided u seat given v) :
    Decided u seat given t := by
  refine ⟨by rw [h.ctrl]; exact hd.here, h.cfg.trans hd.cfg, h.play.trans hd.play, ?_, ?_, ?_⟩
  · rw [h.hand]
    exact hd.pRate
  · rw [h.hand]
    exact hd.winner
  · rcases hd.stage with ⟨todo, all, ha⟩ | ha | ha
    · refine .inl ⟨todo, all, ha.capped, ha.won, ?_, ?_, ha.left, ha.keys, ?_, ha.caps, ?_⟩
      · rw [h.ctrl]
        exact ha.status
      · rw [h.ctrl]
        exact ha.pending
      · rw [h.hand]
        exact ha.award
      · rw [h.hand]
        exact ha.rest
    · refine .inr (.inl ⟨ha.capped, ha.won, ?_, ?_, ha.given, ?_, ?_⟩)
      · rw [h.ctrl]
        exact ha.status
      · rw [h.ctrl]
        exact ha.pending
      · rw [h.hand]
        exact ha.award
      · rw [h.hand]
        exact ha.sInfo
    · refine .inr (.inr ⟨?_, ?_, ?_⟩)
      · rw [h.ctrl]
        exact ha.status
      · rw [h.ctrl]
        exact ha.pending
      · rw [h.hand]
        exact ha.sInfo

theorem Agrees.snoc {caps : Nat → Int} {k : Nat} (h : Agrees caps given)
    (hk : k ∉ given.map Prod.fst) (answer : Int) :
    Agrees (Function.update caps k answer) (given ++ [(k, answer)]) := by
  intro c hc
  rcases List.mem_append.mp hc with hmem | hc
  · have hne : c.1 ≠ k := by
      rintro rfl
      exact hk (List.mem_map_of_mem hmem)
    rw [Function.update_of_ne hne]
    exact h c hmem
  · obtain rfl := List.mem_singleton.mp hc
    exact Function.update_self ..

theorem settlementWith_nongmin (hcap : u.cfg.yingfengding = true)
    (hwon : (u.settleAwards seat).sInfo.winner = 4) (caps : Nat → Int) {x : SInfo} {all : Int}
    (hx : capNongmin caps ((u.settleAwards seat).awardList (0 < ·)) 0
      (u.settleAwards seat).sInfo = (x, all)) :
    (u.settlementWith caps seat).sInfo =
      { x.setAward u.play.dizhu (-all) with
        pRate := fun s => if 1 ≤ s ∧ s ≤ 3 then (u.settleAwards seat).pRate s else 0 } := by
  have hsame := (u.settleAwards_sameHand seat).1
  unfold settlementWith
  dsimp only
  rw [hsame.cfg, if_pos hcap, if_pos hwon, hx, settlementEnd_toHand]
  simp [hsame.play]

theorem award_cap {x : SInfo} (h : x.award ≠ none) (k : Nat) (m : Int) (isOver : Bool) :
    (x.cap k m isOver).award ≠ none := by
  unfold SInfo.cap
  split
  · simp [SInfo.setAward]
  · exact h

theorem winner_capDizhu (maxWin : Int) (todo : List (Nat × Int)) (all : Int) (x : SInfo) :
    (capDizhu maxWin todo all x).1.winner = x.winner := by
  induction todo generalizing all x with
  | nil => rfl
  | cons y todo ih =>
      rw [capDizhu]
      exact (ih _ _).trans (SInfo.winner_cap ..).1

theorem AsksNongmin.resume {todo : List (Nat × Int)} {all : Int}
    (ha : AsksNongmin u seat given v todo all) (hd : Decided u seat given v)
    (hup : v.updating = none) (answer : Int) :
    Decided u seat (given ++ [(v.asked (.capNongmin todo all), answer)])
      ({ v with pending := [] }.resumeSettlement answer (.capNongmin todo all)) := by
  obtain ⟨⟨k, x⟩, todo, rfl⟩ := List.exists_cons_of_ne_nil ha.left
  have hkeys := ha.keys
  have hk : k ∉ given.map Prod.fst := by
    intro hmem
    exact (List.nodup_append.mp hkeys).2.2 k hmem k (by simp) rfl
  obtain ⟨caps, hcaps⟩ := ha.caps
  have hagree := hcaps.snoc hk answer
  -- the rest of the loop, for caps that agree with the answer too
  have hrest : ∀ caps', Agrees caps' (given ++ [(k, answer)]) →
      capNongmin caps' todo
        (all + (v.sInfo.cap k answer (answer < x)).awardOf k)
        (v.sInfo.cap k answer (answer < x)) =
      capNongmin caps' ((u.settleAwards seat).awardList (0 < ·)) 0
        (u.settleAwards seat).sInfo := by
    intro caps' hcaps'
    have hanswer : caps' k = answer := hcaps' (k, answer) (by simp)
    have hold := ha.rest caps' fun c hc => hcaps' c (List.mem_append_left _ hc)
    rw [capNongmin, hanswer] at hold
    exact hold
  have hwinner : ∀ b, (v.sInfo.cap k answer b).winner = (u.settleAwards seat).sInfo.winner :=
    fun b => (SInfo.winner_cap ..).1.trans hd.winner
  unfold resumeSettlement
  dsimp only
  rw [if_neg ha.award]
  cases todo with
  | nil =>
      refine ⟨by simpa using hd.here, by simpa using hd.cfg, by simpa using hd.play,
        by simpa using hd.pRate, ?_,
        .inr (.inr ⟨.inl ⟨by simp, by simp, by simpa using hup⟩, by simp, _, hagree, ?_⟩)⟩
      · simpa [SInfo.setAward] using hwinner _
      · have hlast := (hrest _ hagree).symm
        rw [capNongmin] at hlast
        rw [settlementWith_nongmin ha.capped ha.won _ hlast, ← hd.play, ← hd.pRate]
        simp
  | cons y todo =>
      refine ⟨hd.here, hd.cfg, hd.play, hd.pRate, hwinner _, .inl ⟨_, _, ha.capped, ha.won,
        ha.status, rfl, by simp, ?_, ?_, ⟨_, hagree⟩, hrest⟩⟩
      · simpa [List.map_append, asked] using hkeys
      · exact award_cap ha.award k answer _

theorem AsksDizhu.resume (ha : AsksDizhu u seat given v) (hd : Decided u seat given v)
    (hup : v.updating = none) (answer : Int) :
    Decided u seat (given ++ [(v.asked .capDizhu, answer)])
      ({ v with pending := [] }.resumeSettlement answer .capDizhu) := by
  have hsame := (u.settleAwards_sameHand seat).1
  have hagree : Agrees (fun _ => answer) (given ++ [(v.asked .capDizhu, answer)]) := by
    intro c hc
    rw [ha.given, List.nil_append, List.mem_singleton] at hc
    rw [hc]
  have hlist : Table.awardList { v with pending := [] } (· < 0) =
      (u.settleAwards seat).awardList (· < 0) := by
    rw [awardList, awardList, hsame.cfg, ← hd.cfg, ← ha.sInfo]
  unfold resumeSettlement
  dsimp only
  rw [if_neg ha.award]
  refine ⟨by simpa using hd.here, by simpa using hd.cfg, by simpa using hd.play,
    by simpa using hd.pRate, ?_,
    .inr (.inr ⟨.inl ⟨by simp, by simp, by simpa using hup⟩, by simp, _, hagree, ?_⟩)⟩
  · simp only [settlementEnd_toHand, capDizhuAnswer_toHand, SInfo.setAward]
    exact (winner_capDizhu ..).trans hd.winner
  · unfold settlementWith
    dsimp only
    rw [hsame.cfg, if_pos ha.capped, if_neg (by simp [ha.won]), if_pos ha.won]
    simp only [settlementEnd_toHand, capDizhuAnswer_toHand, hlist, hsame.play, ← ha.sInfo,
      ← hd.play, ← hd.pRate]

theorem quiet_of_cp (hi : v.Inv) (hs : v.status = .cp) :
    v.time = false ∧ v.updating = none :=
  hi.quiet (by simp [hs]) (by simp [hs]) (by simp [hs])

theorem Stands.update (ha : Stands u seat given v) (hd : Decided u seat given v)
    (htime : v.time = true) (hup : v.updating = none) (rand : Nat) :
    Decided u seat given (v.update rand) := by
  rcases ha.status with ⟨-, hnext, -⟩ | ⟨-, hscore⟩
  · have hrun : v.update rand =
        { { v with time := false }.enter .settlement with updating := some .score } := by
      unfold Table.update
      rw [if_pos ⟨htime, hup⟩]
      dsimp only
      rw [hnext]
      rfl
    rw [hrun]
    exact ⟨hd.here, hd.cfg, hd.play, hd.pRate, hd.winner,
      .inr (.inr ⟨.inr ⟨rfl, rfl⟩, ha.pending, ha.sInfo⟩)⟩
  · rw [hup] at hscore
    cases hscore

theorem Decided.step (hd : Decided u seat given v) (hseat : seat ≠ 0) (hi : v.Inv)
    (F : NumFormat) {e : Event} (he : v.Respects e) (hpay : v.Unpaid e) :
    Decided u seat (given ++ v.capOf e) (v.step F e) := by
  have hw : v.sInfo.winner ≠ 0 := by
    rw [hd.winner, winner_settleAwards hseat]
    split <;> decide
  have hstatus : v.status = .cp ∨ v.status = .wait ∨ v.status = .settlement := by
    rcases hd.stage with ⟨todo, all, ha⟩ | ha | ha
    · exact .inl ha.status
    · exact .inl ha.status
    · rcases ha.status with h | h
      · exact .inr (.inl h.1)
      · exact .inr (.inr h.1)
  have hup : v.updating ≠ some .fapai := by
    rcases hd.stage with ⟨todo, all, ha⟩ | ha | ha
    · simp [(quiet_of_cp hi ha.status).2]
    · simp [(quiet_of_cp hi ha.status).2]
    · rcases ha.status with h | h
      · simp [h.2.2]
      · simp [h.2]
  by_cases hcap : v.capOf e = []
  · rw [hcap, List.append_nil]
    by_cases htimer : ∃ rand, e = .update rand ∧ v.time = true ∧ v.updating = none
    · obtain ⟨rand, rfl, htime, hnone⟩ := htimer
      have hrun : v.step F (.update rand) = v.update rand := by
        simp [Table.step, hd.here, handle]
      rw [hrun]
      rcases hd.stage with ⟨todo, all, ha⟩ | ha | ha
      · simp [(quiet_of_cp hi ha.status).1] at htime
      · simp [(quiet_of_cp hi ha.status).1] at htime
      · exact ha.update hd htime hnone rand
    · refine (untouched_step hw hstatus he hcap (fun rand hrand hrun => ?_) hup hpay).decided hd
      exact htimer ⟨rand, hrand, hrun⟩
  · cases e with
    | capAnswer call answer =>
        have hmem : call ∈ v.pending := by
          by_contra hno
          simp [capOf, hno] at hcap
        have hrun : v.step F (.capAnswer call answer) =
            { v with pending := v.pending.erase call }.resumeSettlement answer call := by
          simp [Table.step, hd.here, handle, hmem]
        rw [hrun, capOf, if_pos hmem]
        rcases hd.stage with ⟨todo, all, ha⟩ | ha | ha
        · rw [ha.pending, List.mem_singleton] at hmem
          subst hmem
          rw [ha.pending, List.erase_cons_head]
          exact ha.resume hd (quiet_of_cp hi ha.status).2 answer
        · rw [ha.pending, List.mem_singleton] at hmem
          subst hmem
          rw [ha.pending, List.erase_cons_head]
          exact ha.resume hd (quiet_of_cp hi ha.status).2 answer
        · rw [ha.pending] at hmem
          cases hmem
    | _ => exact absurd rfl hcap

theorem Decided.run (hd : Decided u seat given v) (hseat : seat ≠ 0) (hi : v.Inv)
    {es : List Event}
    (hes : Allowed (Table.step F) (fun t e => t.Respects e ∧ t.Unpaid e) v es) :
    Decided u seat (given ++ capsOf F v es) (run (Table.step F) v es) := by
  induction es generalizing v given with
  | nil =>
      rw [capsOf, List.append_nil]
      exact hd
  | cons e es ih =>
      obtain ⟨⟨he, hpay⟩, hes⟩ := hes
      rw [capsOf, ← List.append_assoc]
      exact ih (hd.step hseat hi F he hpay) (hi.step F he.1) hes

theorem Wins.step {a : ChupaiArgs} (h : t.Wins seat a) :
    t.step F (.chupai seat a) = (t.won seat a).settlement seat := by
  obtain ⟨hgone, ⟨hs, hp⟩, hresult⟩ := h
  unfold Table.step won
  rw [if_neg (by simp [hgone])]
  simp only [handle, Table.chupai]
  rw [if_neg (by simp [hs, hp])]
  generalize t.libChupai seat a = q at hresult
  obtain ⟨res, u⟩ := q
  obtain rfl : res = some 1 := hresult
  rfl

end Decided

/-- The state at the payment is that of the settlement of `u`, with the win caps
that were answered; up to then the hand, the rates and the winner stand. -/
structure KeepsResult (u : Table) (seat : Nat) (given : List (Nat × Int)) (v : Table) :
    Prop where
  play : v.play = u.play
  pRate : v.pRate = (u.settleAwards seat).pRate
  winner : v.sInfo.winner = (u.settleAwards seat).sInfo.winner
  paid : v.updating = some .score →
    ∃ caps, Agrees caps given ∧ v.sInfo = (u.settlementWith caps seat).sInfo

/-- A decided hand stays decided until the payment, and is paid as decided. -/
theorem stays_decided {F : NumFormat} {cfg : Config} {t : Table} {seat : Nat}
    {a : ChupaiArgs} {es : List Event}
    (h : Reach (Table.step F) Respects (newTable cfg) t)
    (hplay : t.Respects (.chupai seat a)) (hwin : t.Wins seat a)
    (hes : Allowed (Table.step F) (fun t e => t.Respects e ∧ t.Unpaid e)
      (t.step F (.chupai seat a)) es) :
    KeepsResult (t.won seat a) seat (capsOf F (t.step F (.chupai seat a)) es)
      (run (Table.step F) (t.step F (.chupai seat a)) es) := by
  have hinv : t.Inv ∧ t.OneCall := by
    refine Reach.invariant (P := fun t => t.Inv ∧ t.OneCall) ⟨newTable_inv cfg, .inl ?_⟩
      (fun u e hu he => ⟨hu.1.step F he.1, hu.2.step hu.1 F he⟩) h
    simp [newTable, pending_newGame]
  obtain ⟨hi, hone⟩ := hinv
  have hs : t.status = .cp := hwin.turn.1
  have hseat : seat ≠ 0 := t.cfg.seat_pos hplay.1.1
  have hplays : Plays t (t.libChupai seat a).table (a.act seat) := by
    rcases t.libChupai_spec seat a with ⟨-, hres⟩ | ⟨hplays, -⟩
    · rw [hwin.result] at hres
      simp at hres
    · exact hplays
  -- no earlier call waits, since no hand is decided
  have hp : t.pending = [] := by
    rcases hone with hp | ⟨-, hw, -⟩
    · exact hp
    · refine absurd ⟨hs, hwin.turn.2, ?_⟩ (hplay.2 hw)
      by_contra hcheck
      have hres := hwin.result
      unfold libChupai at hres
      split at hres
      · cases hres
      · simp at hres
      · next hok => exact hcheck hok
  have hstart : Decided (t.won seat a) seat [] (t.step F (.chupai seat a)) := by
    rw [hwin.step]
    refine decided_settlement hseat ?_ ?_ ?_ ?_
    · simpa [won, hplays.toCtrl] using hwin.here
    · simpa [won, hplays.toCtrl] using hp
    · simpa [won, hplays.toCtrl] using hs
    · simpa [won, hplays.toCtrl] using (quiet_of_cp hi hs).2
  have hend := hstart.run hseat (hi.step F hplay.1) hes
  refine ⟨hend.play, hend.pRate, hend.winner, fun hscore => ?_⟩
  have hi' : (run (Table.step F) (t.step F (.chupai seat a)) es).Inv :=
    Reach.invariant (hi.step F hplay.1) (fun _ _ hu he => hu.step F he.1.1) (reach_run hes)
  rcases hend.stage with ⟨todo, all, ha⟩ | ha | ha
  · simp [(quiet_of_cp hi' ha.status).2] at hscore
  · simp [(quiet_of_cp hi' ha.status).2] at hscore
  · exact ha.sInfo

/-! ## A hand that is dissolved after the winning play -/

instance decidableRespects (t : Table) : ∀ e, Decidable (t.Respects e) := by
  rintro (_ | _) <;> unfold Respects LeavesDecided <;> infer_instance

instance decidableUnpaid (t : Table) : ∀ e, Decidable (t.Unpaid e) := by
  rintro (_ | _) <;> unfold Unpaid <;> infer_instance

/-- The random numbers that deal two cards of each rank from 3 to 12 to the first
seat and the bottom cards. -/
def pairsDeal (k : Nat) : Nat :=
  [0, 0, 0, 0, 0, 35, 33, 0, 0, 27, 25, 0, 0, 19, 17, 0, 0, 11, 9, 0, 36, 0, 0, 32,
    30].getD k 0

def pairsIds : List Nat :=
  [1, 2, 5, 6, 9, 10, 13, 14, 17, 18, 21, 22, 25, 26, 29, 30, 33, 34, 37, 38]

def pairsPlay : ChupaiArgs :=
  { type := 7, keyPai := [3, 12], cpList := some { nor := some pairsIds }
    mergeCpList := pairsIds }

def pairsBid : List Event :=
  [.join 1 none, .join 2 none, .join 3 none, .ready 1, .ready 2, .ready 3, .update 0,
    .fapaiAnswer pairsDeal 0, .update 0, .jiaoDizhu 1 3, .update 0]

theorem pairsBid_wins : (after {} pairsBid).Wins 1 pairsPlay :=
  ⟨by decide +kernel, ⟨by decide +kernel, by decide +kernel⟩, by decide +kernel⟩

theorem stays_decided_pairs :
    KeepsResult ((after {} pairsBid).won 1 pairsPlay) 1
      (capsOf .exact ((after {} pairsBid).step .exact (.chupai 1 pairsPlay))
        [.auto 2 1, .update 0])
      (run (Table.step .exact) ((after {} pairsBid).step .exact (.chupai 1 pairsPlay))
        [.auto 2 1, .update 0]) :=
  stays_decided (reach_run (by decide +kernel)) (by decide +kernel) pairsBid_wins
    (by decide +kernel)

/-- The landlord has won; then the players dissolve the table, and the payment is
made without a winner. -/
theorem dissolved_after_win :
    Reachable .exact {} (after {} (pairsBid ++ [.chupai 1 pairsPlay])) ∧
      (after {} pairsBid).Wins 1 pairsPlay ∧
      (after {} (pairsBid ++ [.chupai 1 pairsPlay])).sInfo.winner = 5 ∧
      (after {} (pairsBid ++ [.chupai 1 pairsPlay])).sInfo.award.map (· 1) =
        some 12 ∧
      (after {} (pairsBid ++ [.chupai 1 pairsPlay, .breakGame, .update 0])).updating =
        some .score ∧
      (after {} (pairsBid ++ [.chupai 1 pairsPlay, .breakGame, .update 0])).sInfo.winner =
        0 ∧
      (after {} (pairsBid ++ [.chupai 1 pairsPlay, .breakGame, .update 0])).sInfo.award.map
        (· 1) = some 0 :=
  ⟨reachable_after (by decide +kernel), pairsBid_wins, by decide +kernel,
    by decide +kernel, by decide +kernel, by decide +kernel, by decide +kernel⟩

end Table

end JyQipai.Ddz
