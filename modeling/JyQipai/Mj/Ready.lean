import JyQipai.Ddz.Ready
import JyQipai.Mj.Rules

/-!
# Players that wait for a hand of Mahjong

The counters of `join`, `ready` and `player_exit_game`, as in the Dou Dizhu room.
A handler that waits for an agent may be overtaken by any other command; none of
its stretches touches the counters, except where a settlement starts a new hand.
-/

namespace JyQipai.Mj

open JyQipai.Lib

namespace Table

def Idle (t : Table) : Prop :=
  (t.status = .waitP ∨ t.status = .ready) ∧ t.gone = false ∧ t.hung = false

structure Counted (t : Table) : Prop where
  tally : Tally t.cfg.seatList t.pSeatNumber t.ready t.pCount t.pReady
  waits : t.Idle → t.pReady ≠ t.cfg.seatCount
  next : ∀ s ∈ t.nextStatus, s ≠ .waitP ∧ s ≠ .ready

structure Still (t u : Table) : Prop where
  cfg : u.cfg = t.cfg
  seats : u.pSeatNumber = t.pSeatNumber ∧ u.pCount = t.pCount
  ready : (u.ready = t.ready ∧ u.pReady = t.pReady ∧ (u.Idle → t.Idle)) ∨
    (u.ready = fun _ => 0) ∧ u.pReady = 0
  next : u.nextStatus = t.nextStatus ∨
    ∃ s, u.nextStatus = some s ∧ s ≠ .waitP ∧ s ≠ .ready

section Still

variable {t u v : Table}

theorem seatCount_pos (cfg : Config) : 0 < cfg.seatCount := by
  unfold Config.seatCount GameType.seatCount
  cases cfg.gameType <;> decide

theorem Counted.still (h : t.Counted) (hu : Still t u) : u.Counted where
  tally := by
    rw [hu.cfg, hu.seats.1, hu.seats.2]
    rcases hu.ready with ⟨hr, hp, -⟩ | ⟨hr, hp⟩
    · rw [hr, hp]
      exact h.tally
    · rw [hr, hp]
      exact h.tally.release
  waits hidle := by
    rw [hu.cfg]
    rcases hu.ready with ⟨-, hp, hback⟩ | ⟨-, hp⟩
    · rw [hp]
      exact h.waits (hback hidle)
    · have := seatCount_pos t.cfg
      omega
  next s hs := by
    rcases hu.next with hn | ⟨s', hn, hs'⟩
    · exact h.next s (hn ▸ hs)
    · rw [hn] at hs
      obtain rfl := Option.some.inj hs
      exact hs'

theorem Still.trans (h : Still t u) (h' : Still u v) : Still t v where
  cfg := h'.cfg.trans h.cfg
  seats := ⟨h'.seats.1.trans h.seats.1, h'.seats.2.trans h.seats.2⟩
  ready := by
    rcases h'.ready with ⟨hr', hp', hback'⟩ | hr'
    · rcases h.ready with ⟨hr, hp, hback⟩ | ⟨hr, hp⟩
      · exact .inl ⟨hr'.trans hr, hp'.trans hp, fun hv => hback (hback' hv)⟩
      · exact .inr ⟨hr'.trans hr, hp'.trans hp⟩
    · exact .inr hr'
  next := by
    rcases h'.next with hn' | hn'
    · rcases h.next with hn | hn
      · exact .inl (hn'.trans hn)
      · exact .inr (hn' ▸ hn)
    · exact .inr hn'

def rest (t : Table) : Config × Ctrl × (Nat → Option Nat) × Int × (Nat → Nat) × Int :=
  (t.cfg, t.toCtrl, t.pSeatNumber, t.pCount, t.ready, t.pReady)

theorem Still.of_rest (h : u.rest = t.rest) : Still t u := by
  simp only [rest, Prod.mk.injEq] at h
  obtain ⟨hc, hctrl, hs, hn, hr, hp⟩ := h
  exact ⟨hc, ⟨hs, hn⟩, .inl ⟨hr, hp, fun h => by rwa [Idle, hctrl] at h⟩,
    .inl (by rw [hctrl])⟩

theorem Still.refl (t : Table) : Still t t := .of_rest rfl

theorem Still.of_enter {s : Status} (h : { u with status := t.status }.rest = t.rest)
    (hu : u.status = s) (hs : s ≠ .waitP ∧ s ≠ .ready) : Still t u := by
  simp only [rest, Prod.mk.injEq] at h
  obtain ⟨hc, hctrl, hseat, hn, hr, hp⟩ := h
  refine ⟨hc, ⟨hseat, hn⟩, .inl ⟨hr, hp, fun h => ?_⟩, .inl (by rw [← hctrl])⟩
  rw [Idle, hu] at h
  exact absurd h.1 (not_or.mpr hs)

theorem still_enter (t : Table) {s : Status} (hs : s ≠ .waitP ∧ s ≠ .ready) :
    Still t (t.enter s) :=
  .of_enter rfl rfl hs

theorem Still.of_wait {s : Status}
    (h : { u with status := t.status, nextStatus := t.nextStatus }.rest = t.rest)
    (hu : u.status = .wait) (hn : u.nextStatus = some s) (hs : s ≠ .waitP ∧ s ≠ .ready) :
    Still t u := by
  simp only [rest, Prod.mk.injEq] at h
  obtain ⟨hc, -, hseat, hcount, hr, hp⟩ := h
  refine ⟨hc, ⟨hseat, hcount⟩, .inl ⟨hr, hp, fun h => ?_⟩, .inr ⟨s, hn, hs⟩⟩
  simp [Idle, hu] at h

theorem still_wait (t : Table) {s : Status} (hs : s ≠ .waitP ∧ s ≠ .ready) :
    Still t (t.wait s) :=
  .of_wait rfl rfl rfl hs

theorem still_newGame (t : Table) : Still t t.newGame :=
  ⟨rfl, ⟨rfl, rfl⟩, .inr ⟨rfl, rfl⟩, .inl rfl⟩

theorem still_nextGame (t : Table) : Still t t.nextGame := by
  unfold nextGame
  split
  · exact still_wait t (by decide)
  · exact (Still.of_rest rfl :
      Still t { t with curRace := t.curRace + 1 }).trans (still_newGame _)

end Still

section Handlers

variable {F : NumFormat} {t u : Table} {α β : Type}

abbrev Quiet (t : Table) (p : M α) : Prop := p.Within Still t

theorem Quiet.of_still {p : M α} (hp : Quiet u p) (h : Still t u) : Quiet t p :=
  Prog.Within.of_step (R := Still) Still.trans h hp

theorem Quiet.bind {p : M α} {f : α → Handler Table Query Answer β} (hp : Quiet t p)
    (hf : ∀ a u, Quiet u (f a u)) : Quiet t (p.bind f) :=
  Prog.Within.bind (R := Still) Still.trans hp hf

theorem quiet_ask {q : Query} {k : Int → Table → M α} (hk : ∀ n u, Quiet u (k n u)) :
    Quiet t (t.ask q k) := by
  refine ⟨.refl t, fun a u => ?_⟩
  exact (hk _ _).of_still (.of_rest rfl)

theorem quiet_changeOnePlayerScore (s : Nat) (score : Int) {k : Int → Table → M α}
    (hk : ∀ n u, Quiet u (k n u)) : Quiet t (t.changeOnePlayerScore s score k) := by
  unfold changeOnePlayerScore
  split
  · exact quiet_ask hk
  · exact hk _ _

theorem quiet_payLosers {race seat : Nat} {piao : Option Nat} {cap : Option Int}
    {k : Int → Int → Table → M α} (hk : ∀ m n u, Quiet u (k m n u)) (others : List Nat)
    (score sum surplus : Int) (t : Table) :
    Quiet t (payLosers race seat piao cap k others score sum surplus t) := by
  induction others generalizing score sum surplus t with
  | nil => exact hk _ _ _
  | cons loser others ih =>
      unfold payLosers
      split
      · exact .refl t
      · refine quiet_changeOnePlayerScore _ _ fun n u => ?_
        exact (ih _ _ _ _).of_still (.of_rest rfl)

theorem quiet_dealChangeScore {race seat : Nat} {total : ℚ} {others : List Nat}
    {type : PayType} {k : Int → Int → Table → M α} (hk : ∀ m n u, Quiet u (k m n u))
    (t : Table) : Quiet t (dealChangeScore F t race seat total others type k) := by
  have hpay : ∀ (cap : Option Int) (u : Table), Quiet u
      (payLosers race seat (if t.cfg.daPiao then some t.getDaPiaoPlayerNum else none) cap
        (fun sum surplus t => t.payWinner race seat sum surplus k) others
        ⌊F.mul total t.cfg.initStake⌋ 0 0 u) := by
    intro cap u
    refine quiet_payLosers (fun m n v => ?_) _ _ _ _ _
    exact (quiet_changeOnePlayerScore _ _ fun _ _ => hk _ _ _ :
      Quiet (v.book race seat |m| (-n)) _).of_still (.of_rest rfl)
  unfold dealChangeScore
  dsimp only
  split
  · exact quiet_ask fun n u => hpay _ u
  · exact hpay none t

theorem quiet_recordGangScore {race seat : Nat} {type : PgType} {pai : Nat}
    {others : List Nat} {k : Table → M α} (hk : ∀ u, Quiet u (k u)) (t : Table) :
    Quiet t (t.recordGangScore F race seat type pai others k) := by
  unfold recordGangScore
  split
  · exact hk t
  · refine quiet_dealChangeScore (fun m n u => ?_) t
    exact (hk _).of_still (.of_rest rfl)

theorem quiet_runPays {race : Nat} {k : Table → M α} (hk : ∀ u, Quiet u (k u))
    (pays : List Pay) (t : Table) : Quiet t (runPays F race k pays t) := by
  induction pays generalizing t with
  | nil => exact hk t
  | cons pay pays ih => exact quiet_dealChangeScore (fun _ _ u => ih u) t

theorem quiet_saveRaceOverLog {k : Table → M α} (hk : ∀ u, Quiet u (k u)) (t : Table) :
    Quiet t (t.saveRaceOverLog k) := by
  unfold saveRaceOverLog
  split
  · exact hk t
  · exact quiet_ask fun _ => hk

theorem quiet_settle (t : Table) : Quiet t (settle F t) := by
  have hfinish : ∀ u : Table, Quiet u (u.settleBankrupt.saveRaceOverLog fun v =>
      .done (v.sendSettlement fun s => (u.settleBankrupt.sInfo s).score).nextGame ()) := by
    intro u
    refine Quiet.of_still (u := u.settleBankrupt) (quiet_saveRaceOverLog (fun v => ?_) _)
      (.of_rest rfl)
    exact Still.trans (u := v.sendSettlement _) (.of_rest rfl) (still_nextGame _)
  refine Quiet.of_still (u := t.enter .settlement) ?_ (still_enter t (by decide))
  unfold settle statusSettlement
  split
  · exact .refl _
  · refine Quiet.of_still (u := (t.enter .settlement).settleGenDatas) ?_ (.of_rest rfl)
    dsimp only
    split
    · exact hfinish _
    · unfold settleChaJiao
      split
      · exact quiet_runPays hfinish _ _
      · exact hfinish _

theorem still_popPai (t : Table) : Still t t.popPai.2 := by
  unfold popPai
  split
  · exact .refl t
  · split
    · exact .refl t
    · exact .of_rest rfl

theorem still_draw (t : Table) : Still t t.draw.2 := by
  refine Still.trans (u := { t with pIgnoreHu := Function.update t.pIgnoreHu t.curP none })
    (.of_rest rfl) (Still.trans (still_popPai _) ?_)
  exact .of_rest rfl

theorem quiet_statusMoPai (t : Table) : Quiet t (statusMoPai F t) := by
  refine Quiet.of_still (u := t.enter .moPai) ?_ (still_enter t (by decide))
  unfold statusMoPai
  dsimp only
  split
  · exact quiet_settle _
  · generalize decide ((_ : Nat) ≤ _) = isOver
    refine Quiet.of_still (u := (t.enter .moPai).noteCheck isOver) ?_ (.of_rest rfl)
    split
    · exact quiet_settle _
    · have hdraw := still_draw ((t.enter .moPai).noteCheck isOver)
      split
      · next u hu =>
        rw [hu] at hdraw
        exact (quiet_settle _).of_still hdraw
      · next pai u hu =>
        rw [hu] at hdraw
        exact hdraw.trans (.of_rest rfl)

theorem quiet_dealGuo (t : Table) : Quiet t (dealGuo F t) := by
  unfold dealGuo
  split
  · exact .refl t
  · dsimp only
    split
    · exact ⟨rfl, ⟨rfl, rfl⟩, .inl ⟨rfl, rfl, fun h => by simp [Idle] at h⟩, .inl rfl⟩
    · exact (quiet_statusMoPai _).of_still (.of_rest rfl)

theorem still_offer (t : Table) (cs : List (Nat × Permit)) : Still t (t.offer cs) := by
  refine ⟨rfl, ⟨rfl, rfl⟩, .inl ⟨rfl, rfl, fun h => ?_⟩, .inl rfl⟩
  simp only [Idle, offer] at h
  split at h
  · exact h
  · simp at h

theorem quiet_dealChuPai (seat pai : Nat) (t : Table) :
    Quiet t (dealChuPai F t seat pai) := by
  have hoffer : Still t ((t.offer (t.claims seat pai)).setZhuanYu seat) :=
    (still_offer t _).trans (.of_rest rfl)
  unfold dealChuPai
  dsimp only
  split
  · exact (quiet_dealGuo _).of_still hoffer
  · exact hoffer

theorem quiet_movePaiForPg {s pai : Nat} {type : PgType} {k : Table → M α}
    (hk : ∀ u, Quiet u (k u)) (t : Table) :
    Quiet t (t.movePaiForPg s pai type k) := by
  unfold movePaiForPg
  split
  · exact .refl t
  · exact (hk _).of_still (.of_rest rfl)

theorem quiet_dealPengPai (act : Act) (t : Table) : Quiet t (t.dealPengPai act) := by
  refine quiet_movePaiForPg (fun u => ?_) t
  exact Still.of_enter (s := .cp) rfl rfl (by decide)

theorem quiet_gangDone (act : Act) (type : PgType) (t : Table) :
    Quiet t (gangDone F t act type) := by
  refine quiet_movePaiForPg (fun u => ?_) t
  exact (quiet_statusMoPai _).of_still (.of_rest rfl)

theorem quiet_dealGang (race : Nat) (act : Act) (type : PgType) (t : Table) :
    Quiet t (dealGang F t race act type) := by
  unfold dealGang
  split
  · split
    · exact .refl t
    · exact quiet_recordGangScore (fun u => quiet_gangDone _ _ u) t
  · exact quiet_recordGangScore (fun u => quiet_gangDone _ _ u) t

theorem quiet_dealWGangFinish (race : Nat) (act : Act) (t : Table) :
    Quiet t (dealWGangFinish F t race act) := by
  have hmo : ∀ u : Table, Quiet u (statusMoPai F { u with curP := act.p }) :=
    fun u => (quiet_statusMoPai _).of_still (.of_rest rfl)
  unfold dealWGangFinish
  dsimp only
  split
  · exact hmo t
  · exact quiet_recordGangScore hmo t

theorem quiet_dealWGang (race : Nat) (act : Act) (t : Table) :
    Quiet t (dealWGang F t race act) := by
  refine quiet_movePaiForPg (fun u => ?_) t
  dsimp only
  split
  · exact (quiet_dealWGangFinish _ _ _).of_still (.of_rest rfl)
  · exact Still.of_enter (s := .qiangGangHu) rfl rfl (by decide)

theorem still_win (t : Table) (a : HuAct) : Still t (t.win a) := by
  unfold win
  dsimp only
  split <;> exact .of_rest rfl

theorem quiet_dealHuLoop {race : Nat} {actions : Nat → Option HuAct} {k : Table → M Unit}
    (hk : ∀ u, Quiet u (k u)) (n : Nat) (s : Option Nat) (t : Table) :
    Quiet t (dealHuLoop F race actions k n s t) := by
  induction n generalizing s t with
  | zero => exact hk t
  | succ n ih =>
      cases s with
      | none => exact .refl t
      | some s =>
          unfold dealHuLoop
          split
          · exact ih _ _
          · next a _ =>
            refine Quiet.of_still (u := t.win a) ?_ (still_win t a)
            refine quiet_dealChangeScore (fun _ _ u => ?_) _
            exact (ih _ _).of_still (.of_rest rfl)

theorem quiet_dealHu (race : Nat) (actions : Nat → Option HuAct) (t : Table) :
    Quiet t (dealHu F t race actions) := by
  unfold dealHu
  split
  · exact .refl t
  · refine quiet_dealHuLoop (fun u => ?_) _ _ t
    dsimp only
    generalize decide ((_ : Nat) ≤ _) = isOver
    refine Quiet.of_still (u := u.dealGameBankrupt.noteCheck isOver) ?_ (.of_rest rfl)
    split
    · exact quiet_settle _
    · exact quiet_dealGuo _

theorem quiet_qiangGangHuManager (race p : Nat) (hu : Option HuAct) (t : Table) :
    Quiet t (t.qiangGangHuManager F race p hu) := by
  refine Quiet.of_still (u := t.noteRob p hu) ?_ (.of_rest rfl)
  unfold qiangGangHuManager
  dsimp only
  split
  · split
    · exact .refl _
    · next act _ =>
      refine Quiet.bind ?_ fun _ u => .of_rest rfl
      split
      · exact (quiet_dealHu _ _ _).of_still (.of_rest rfl)
      · exact quiet_dealWGangFinish _ _ _
  · exact .refl _

theorem still_noteClaim (t : Table) (c : Claim) : Still t (t.noteClaim c) := by
  cases c <;> exact .of_rest rfl

theorem quiet_pengGangHuManager (race : Nat) (c : Claim) (t : Table) :
    Quiet t (t.pengGangHuManager F race c) := by
  refine Quiet.of_still (u := t.noteClaim c) ?_ (still_noteClaim t c)
  unfold pengGangHuManager
  dsimp only
  split
  · refine Quiet.bind ?_ fun _ u => .of_rest rfl
    split
    · exact quiet_dealHu _ _ _
    · split
      · split
        · exact quiet_dealPengPai _ _
        · split
          · exact quiet_dealGang _ _ _ _
          · exact .refl _
      · exact quiet_dealGuo _
  · exact .refl _

/-! ## Commands -/

theorem quiet_chuPai (seat pai : Nat) (t : Table) : Quiet t (t.chuPai F seat pai) := by
  unfold chuPai
  split
  · dsimp only
    split
    · exact .of_rest rfl
    · refine Quiet.bind ?_ fun _ u => .refl u
      exact (quiet_dealChuPai _ _ _).of_still (.of_enter (s := .cpFinish) rfl rfl (by decide))
  · exact .refl t

theorem quiet_guoPai (seat : Nat) (t : Table) : Quiet t (t.guoPai F seat) := by
  unfold guoPai
  split
  · dsimp only
    split
    · exact .of_rest rfl
    · refine Quiet.bind ?_ fun _ u => .refl u
      split
      · exact (quiet_qiangGangHuManager _ _ _ _).of_still (.of_rest rfl)
      · exact (quiet_pengGangHuManager _ _ _).of_still (.of_rest rfl)
  · exact .refl t

theorem quiet_pengPai (seat pai : Nat) (t : Table) : Quiet t (t.pengPai F seat pai) := by
  unfold pengPai
  split
  · refine Quiet.bind ?_ fun _ u => .refl u
    exact (quiet_pengGangHuManager _ _ _).of_still (.of_rest rfl)
  · exact .refl t

theorem quiet_gangPai (seat : Nat) (type : GangArg) (pai : Nat) (t : Table) :
    Quiet t (t.gangPai F seat type pai) := by
  unfold gangPai
  split
  · refine Quiet.bind ?_ fun _ u => .of_rest rfl
    cases type with
    | ag => exact (quiet_dealGang _ _ _ _).of_still (.of_rest rfl)
    | zg => exact (quiet_pengGangHuManager _ _ _).of_still (.of_rest rfl)
    | wg => exact (quiet_dealWGang _ _ _).of_still (.of_rest rfl)
    | jwg => exact (quiet_dealWGang _ _ _).of_still (.of_rest rfl)
  · exact .refl t

theorem quiet_zhuanYu (race seat : Nat) (a : HuAct) (acts : List Act) (t : Table) :
    Quiet t (t.zhuanYu F race seat a acts) := by
  unfold zhuanYu
  split
  · exact .refl t
  · split
    · exact .refl t
    · split
      · refine Quiet.of_still (quiet_dealChangeScore (fun _ _ u => ?_) _) (.of_rest rfl)
        exact Still.refl u
      · exact .refl t

theorem quiet_huPai (seat : Nat) (t : Table) : Quiet t (t.huPai F seat) := by
  unfold huPai
  split
  · dsimp only
    split
    · exact .of_rest rfl
    · next hu _ =>
      refine Quiet.bind ?_ fun _ u => quiet_zhuanYu _ _ _ _ u
      cases huTypeOf hu with
      | qghu => exact (quiet_qiangGangHuManager _ _ _ _).of_still (.of_rest rfl)
      | pao => exact (quiet_pengGangHuManager _ _ _).of_still (.of_rest rfl)
      | zimo => exact (quiet_dealHu _ _ _).of_still (.of_rest rfl)
      | tianHu => exact (quiet_dealHu _ _ _).of_still (.of_rest rfl)
  · exact .refl t

theorem quiet_daPiao (seat : Nat) (n : Int) (t : Table) : Quiet t (t.daPiao seat n) := by
  unfold daPiao
  split
  · dsimp only
    split
    · exact .of_rest rfl
    · split
      · exact Still.of_wait (s := .daPiaoFinish) rfl rfl rfl (by decide)
      · exact .of_rest rfl
  · exact .refl t

theorem quiet_dingQue (seat flower : Nat) (t : Table) :
    Quiet t (t.dingQue seat flower) := by
  unfold dingQue
  split
  · dsimp only
    split
    · exact Still.of_wait (s := .dingQueFinish) rfl rfl rfl (by decide)
    · exact .of_rest rfl
  · exact .refl t

theorem quiet_huanSanZhang (seat : Nat) (old : List Nat) (t : Table) :
    Quiet t (t.huanSanZhang seat old) := by
  have hrest : Still t (((t.setDone seat false).huanPai seat old).setSeat seat
      fun d => { d with isHuanPai := true }) :=
    .of_rest (huanPai_frame (f := rest) (fun _ _ _ => rfl) (fun _ _ => rfl) seat old
      (t.setDone seat false))
  unfold huanSanZhang
  split
  · dsimp only
    split
    · exact hrest.trans (still_wait _ (by decide))
    · exact hrest
  · exact .refl t

theorem quiet_finishGame {status : Status} (hs : status ≠ .waitP ∧ status ≠ .ready)
    (t : Table) : Quiet t (t.finishGame status) := by
  refine Quiet.of_still (quiet_ask fun _ u => ?_) (still_enter t hs)
  exact ⟨rfl, ⟨rfl, rfl⟩, .inl ⟨rfl, rfl, fun h => by simp [Idle] at h⟩, .inl rfl⟩

theorem quiet_cancelGame (t : Table) : Quiet t t.cancelGame := by
  unfold cancelGame
  split
  · exact .refl t
  · exact Quiet.bind (quiet_finishGame (by decide) t) fun _ u => .refl u

theorem quiet_breakGame (t : Table) : Quiet t (t.breakGame F) := by
  unfold breakGame
  split
  · exact .refl t
  · refine Quiet.of_still (u := { t with isBreakGame := true }) ?_ (.of_rest rfl)
    dsimp only
    split
    · exact Quiet.bind (quiet_finishGame (by decide) _) fun _ u => .refl u
    · split
      · refine Quiet.of_still (u := { t with isBreakGame := true, isBreakRace := true }) ?_
          (.of_rest rfl)
        exact Quiet.bind (quiet_settle _) fun _ u => .refl u
      · exact .refl _

theorem quiet_forceBreakGame (t : Table) : Quiet t t.forceBreakGame := by
  refine Quiet.of_still (u := { t with isBreakGame := true })
    (quiet_saveRaceOverLog (fun u => ?_) _) (.of_rest rfl)
  exact Still.trans (u := u.sendSettlement fun _ => 0) (.of_rest rfl)
    (still_wait _ (by decide))

theorem still_statusHuanPaiFinish (t : Table) : Still t t.statusHuanPaiFinish := by
  unfold statusHuanPaiFinish
  split
  · exact still_wait t (by decide)
  · exact Still.of_wait (s := .start) rfl rfl rfl (by decide)

theorem still_statusDaPiaoFinish (t : Table) : Still t t.statusDaPiaoFinish := by
  unfold statusDaPiaoFinish
  split
  · exact still_wait t (by decide)
  · exact still_statusHuanPaiFinish t

theorem still_statusFapai (t : Table) : Still t t.statusFapai := by
  have hdeal : Still t (t.enter .fapai).fapaiNor :=
    (still_enter t (by decide)).trans
      (.of_rest (fapaiNor_frame (fun _ _ _ => rfl) (fun _ _ _ => rfl) _))
  unfold statusFapai
  dsimp only
  split
  · exact hdeal.trans (still_wait _ (by decide))
  · exact hdeal.trans (still_statusDaPiaoFinish _)

theorem still_statusGameBegin (t : Table) : Still t t.statusGameBegin :=
  (still_enter t (by decide)).trans (still_wait _ (by decide))

theorem quiet_changeStatus {s : Status} (hs : s ≠ .waitP ∧ s ≠ .ready) (t : Table) :
    Quiet t (t.changeStatus F s) := by
  cases s with
  | waitP => exact absurd rfl hs.1
  | ready => exact absurd rfl hs.2
  | gameBegin => exact still_statusGameBegin t
  | touSezi => exact Still.of_enter (s := .touSezi) rfl rfl (by decide)
  | fapai => exact still_statusFapai t
  | huanPai => exact Still.of_enter (s := .huanPai) rfl rfl (by decide)
  | huanPaiFinish =>
      exact (still_enter t (s := .huanPaiFinish) (by decide)).trans
        (still_statusHuanPaiFinish _)
  | daPiao => exact Still.of_enter (s := .daPiao) rfl rfl (by decide)
  | daPiaoFinish =>
      exact (still_enter t (s := .daPiaoFinish) (by decide)).trans
        (still_statusDaPiaoFinish _)
  | dingQue => exact Still.of_enter (s := .dingQue) rfl rfl (by decide)
  | dingQueFinish => exact Still.of_wait (s := .start) rfl rfl rfl (by decide)
  | cp => exact Still.of_enter (s := .cp) rfl rfl (by decide)
  | start =>
      unfold changeStatus startCp
      dsimp only
      split <;> exact Still.of_enter (s := .start) rfl rfl (by decide)
  | moPai => exact quiet_statusMoPai t
  | settlement => exact quiet_settle t
  | gameover => exact quiet_finishGame (by decide) t
  | gamecancel => exact quiet_finishGame (by decide) t
  | wait => exact still_enter t (by decide)
  | cpFinish => exact still_enter t (by decide)
  | pengGangHu => exact still_enter t (by decide)
  | qiangGangHu => exact still_enter t (by decide)

theorem quiet_update (h : ∀ s ∈ t.nextStatus, s ≠ .waitP ∧ s ≠ .ready) :
    Quiet t (t.update F) := by
  unfold update
  split
  · next s _ hn => exact Quiet.bind (quiet_changeStatus (h s hn) t) fun _ u => .refl u
  · exact still_statusFapai t
  · exact .refl t

end Handlers

section Run

variable {F : NumFormat} {t : Table} {w : MjWorld}

/-- The events that keep the counters right: a player who leaves had pressed
ready, and a seat that is asked for is free. -/
def KeepsCount (t : Table) : Event → Prop
  | .join _ seat _ => ∀ s ∈ seat, s ∈ t.cfg.seatList ∧ t.pSeatNumber s = none
  | .playerExitGame seat => (t.pSeatNumber seat).isSome → t.ready seat = 1
  | .ready seat => seat ∈ t.cfg.seatList
  | _ => True

abbrev KeepsCounted (p : M Int) : Prop :=
  p.Keeps (fun _ _ => True) (fun _ => True) Counted

theorem Counted.join (h : t.Counted) (id : Nat) (seat : Option Nat) (score : Int)
    (he : t.KeepsCount (.join id seat score)) : KeepsCounted (t.join id seat score) := by
  unfold Table.join
  split
  · exact h
  · split
    · exact h
    · next s hs =>
      have hfree : s ∈ t.cfg.seatList ∧ t.pSeatNumber s = none := by
        cases seat with
        | some s' =>
            obtain rfl : s' = s := by simpa using hs
            exact he s' rfl
        | none =>
            rw [Option.none_or] at hs
            exact ⟨List.mem_of_find?_eq_some hs, by simpa using List.find?_some hs⟩
      exact ⟨h.tally.take (Config.seatList_nodup _) hfree.1 hfree.2 id, h.waits, h.next⟩

theorem Counted.playerExitGame (h : t.Counted) (seat : Nat)
    (he : t.KeepsCount (.playerExitGame seat)) :
    KeepsCounted (t.playerExitGame seat) := by
  unfold Table.playerExitGame
  split
  · exact h
  · next id hid =>
    have htaken : (t.pSeatNumber seat).isSome := Option.isSome_iff_exists.mpr ⟨id, hid⟩
    refine ⟨h.tally.leave (Config.seatList_nodup _) htaken (he htaken), fun hidle => ?_, h.next⟩
    have hle : t.pReady ≤ t.cfg.seatCount := by
      rw [h.tally.total]
      have := List.countP_le_length (l := t.cfg.seatList) (p := fun s => t.ready s = 1)
      rw [Config.seatList, List.length_range'] at this
      exact_mod_cast this
    show t.pReady - 1 ≠ t.cfg.seatCount
    omega

theorem Counted.readyCmd (h : t.Counted) {seat : Nat} (hs : seat ∈ t.cfg.seatList) :
    KeepsCounted (t.readyCmd seat) := by
  unfold Table.readyCmd
  split
  · next hzero =>
    have htally := h.tally.press (Config.seatList_nodup _) hs hzero
    dsimp only
    split
    · refine ⟨htally, fun hidle => ?_, ?_⟩
      · simp [Idle, statusGameBegin, Table.wait] at hidle
      · simp [statusGameBegin, Table.wait]
    · next hno => exact ⟨htally, fun _ => hno, h.next⟩
  · exact h

theorem Counted.step (h : t.Counted) {e : Event} (he : t.KeepsCount e) (ρ : Nat → Nat) :
    KeepsCounted (Table.step F (e, ρ) t) := by
  unfold Table.step
  split
  · exact h
  · replace h : Counted { t with rand := ρ } := ⟨h.tally, h.waits, h.next⟩
    replace he : KeepsCount { t with rand := ρ } e := by cases e <;> exact he
    have hq {p : M Int} (hp : Quiet { t with rand := ρ } p) : KeepsCounted p :=
      hp.keeps (fun _ _ hs hst => hs.still hst) h
    dsimp only
    cases e with
    | join id seat score => exact h.join id seat score he
    | playerExitGame seat => exact h.playerExitGame seat he
    | ready seat => exact h.readyCmd he
    | daPiao seat n => exact hq (quiet_daPiao seat n _)
    | dingQue seat flower => exact hq (quiet_dingQue seat flower _)
    | huanSanZhang seat old => exact hq (quiet_huanSanZhang seat old _)
    | chuPai seat pai => exact hq (quiet_chuPai seat pai _)
    | guoPai seat => exact hq (quiet_guoPai seat _)
    | pengPai seat pai => exact hq (quiet_pengPai seat pai _)
    | gangPai seat type pai => exact hq (quiet_gangPai seat type pai _)
    | huPai seat => exact hq (quiet_huPai seat _)
    | quitRoom seat =>
        refine hq ?_
        unfold handle quitRoom
        dsimp only
        split
        · exact .of_rest rfl
        · exact .refl _
    | cancelGame => exact hq (quiet_cancelGame _)
    | breakGame => exact hq (quiet_breakGame _)
    | overTimeCancelGame =>
        refine hq ?_
        unfold handle overTimeCancelGame
        dsimp only
        split
        · exact quiet_cancelGame _
        · exact quiet_breakGame _
    | forceBreakGame => exact hq (quiet_forceBreakGame _)
    | update => exact hq (quiet_update h.next)

theorem counted_newTable (cfg : Config) (ρ : Nat → Nat) : (newTable cfg ρ).Counted := by
  refine Counted.still ?_ (still_newGame _)
  refine ⟨Tally.free _, fun _ => ?_, by simp⟩
  have := seatCount_pos cfg
  show (0 : Int) ≠ cfg.seatCount
  omega

/-- The conditions of a run whose counters stay right: the answers of the agents
are arbitrary. -/
def CountRun (w : MjWorld) (i : Input (Event × (Nat → Nat)) Answer) : Prop :=
  World.Admits (fun _ _ => True) (fun t (e : Event × (Nat → Nat)) => t.KeepsCount e.1)
    (fun _ => True) w i

theorem Reachable.counted {cfg : Config} {ρ : Nat → Nat}
    (h : Reachable F cfg ρ CountRun w) : w.state.Counted := by
  have hcmd : ∀ (t : Table) (e : Event × (Nat → Nat)), t.Counted → t.KeepsCount e.1 →
      KeepsCounted (Table.step F e t) := fun _ e ht he => ht.step he e.2
  exact (World.kept_of_reach (counted_newTable cfg ρ) hcmd h).1

/-! ## The beginning of a hand -/

def Begun (t : Table) : Prop := t.status = .wait ∧ t.nextStatus = some .touSezi

/-- The players press ready: the table waits for more of them, or all have done
so and the game has begun. -/
structure Pressing (t : Table) : Prop where
  counted : t.Counted
  live : t.gone = false ∧ t.hung = false
  phase : t.Idle ∨ (t.Begun ∧ ∀ s ∈ t.cfg.seatList, t.ready s = 1)

def readyInput (s : Nat) (ρ : Nat → Nat) : Input (Event × (Nat → Nat)) Answer :=
  .command (.ready s, ρ)

theorem Pressing.ready (h : w.state.Pressing) {s : Nat} (hs : s ∈ w.state.cfg.seatList)
    (ρ : Nat → Nat) :
    let u := (World.step (Table.step F) w (readyInput s ρ)).state
    u.Pressing ∧ u.cfg = w.state.cfg ∧ u.ready s = 1 ∧
      ∀ x, w.state.ready x = 1 → u.ready x = 1 := by
  obtain ⟨t, waiting⟩ := w
  dsimp only at h hs ⊢
  have hcounted : KeepsCounted (Table.step F (.ready s, ρ) t) :=
    h.counted.step (e := .ready s) hs ρ
  have hstep : Table.step F (.ready s, ρ) t = readyCmd { t with rand := ρ } s := by
    simp [Table.step, h.live, handle]
  rw [readyInput, World.step, hstep]
  rw [hstep] at hcounted
  rcases h.counted.tally.two s with hzero | hone
  · have hidle : t.Idle := by
      rcases h.phase with hidle | ⟨-, hall⟩
      · exact hidle
      · exact absurd (hall s hs) (by omega)
    have hmono : ∀ x, t.ready x = 1 → Function.update t.ready s 1 x = 1 := by
      intro x hx
      by_cases hxs : x = s
      · rw [hxs, Function.update_self]
      · rwa [Function.update_of_ne hxs]
    unfold readyCmd at hcounted ⊢
    rw [if_pos hzero] at hcounted ⊢
    dsimp only at hcounted ⊢
    split at hcounted
    · next hfull =>
      rw [if_pos hfull]
      refine ⟨⟨hcounted, h.live, .inr ⟨⟨rfl, rfl⟩, ?_⟩⟩, rfl, Function.update_self .., hmono⟩
      have htally := h.counted.tally.press (Config.seatList_nodup _) hs hzero
      have hlen : t.pReady + 1 = t.cfg.seatList.length := by
        rw [Config.seatList, List.length_range']
        exact hfull
      exact htally.total_eq_length.mp hlen
    · next hfull =>
      rw [if_neg hfull]
      exact ⟨⟨hcounted, h.live, .inl hidle⟩, rfl, Function.update_self .., hmono⟩
  · have hsame : readyCmd { t with rand := ρ } s = .done { t with rand := ρ } 0 := by
      simp [readyCmd, hone]
    rw [hsame]
    exact ⟨⟨⟨h.counted.tally, h.counted.waits, h.counted.next⟩, h.live, h.phase⟩, rfl,
      hone, fun _ hx => hx⟩

theorem Counted.begins (h : w.state.Counted) (hidle : w.state.Idle) (ρ : Nat → Nat)
    {order : List Nat} (hin : ∀ s ∈ order, s ∈ w.state.cfg.seatList)
    (hall : ∀ s ∈ w.state.cfg.seatList, s ∈ order) :
    (run (World.step (Table.step F)) w (order.map (readyInput · ρ))).state.Begun := by
  have hrun : ∀ (order : List Nat) (w : MjWorld), w.state.Pressing →
      (∀ s ∈ order, s ∈ w.state.cfg.seatList) →
      (∀ s ∈ w.state.cfg.seatList, s ∈ order ∨ w.state.ready s = 1) →
      (run (World.step (Table.step F)) w (order.map (readyInput · ρ))).state.Begun := by
    intro order
    induction order with
    | nil =>
        intro w hw _ hall
        rcases hw.phase with hidle | hbegun
        · refine absurd ?_ (hw.counted.waits hidle)
          have hlen := hw.counted.tally.total_eq_length.mpr fun s hs => by simpa using hall s hs
          rwa [Config.seatList, List.length_range'] at hlen
        · exact hbegun.1
    | cons s order ih =>
        intro w hw hin hall
        obtain ⟨hnext, hcfg, hone, hmono⟩ := hw.ready (F := F) (hin s (by simp)) ρ
        refine ih _ hnext (fun x hx => ?_) fun x hx => ?_
        · rw [hcfg]
          exact hin x (by simp [hx])
        · rw [hcfg] at hx
          rcases hall x hx with hmem | hx1
          · rcases List.mem_cons.mp hmem with rfl | hmem
            · exact .inr hone
            · exact .inl hmem
          · exact .inr (hmono x hx1)
  exact hrun order w ⟨h, hidle.2, .inl hidle⟩ hin fun s hs => .inl (hall s hs)

/-- Ready counting at a waiting table: both counters are right, and if all seats
are occupied the game begins once each of them has sent ready, in any order. -/
def CountsReady (F : NumFormat) (w : MjWorld) : Prop :=
  w.state.Idle →
    w.state.pReady = (w.state.cfg.seatList.countP fun s => w.state.ready s = 1) ∧
      w.state.pCount =
        (w.state.cfg.seatList.countP fun s => (w.state.pSeatNumber s).isSome) ∧
      ((∀ s ∈ w.state.cfg.seatList, (w.state.pSeatNumber s).isSome) →
        ∀ (ρ : Nat → Nat) (order : List Nat),
          (∀ s ∈ order, s ∈ w.state.cfg.seatList) →
          (∀ s ∈ w.state.cfg.seatList, s ∈ order) →
          (run (World.step (Table.step F)) w (order.map (readyInput · ρ))).state.Begun)

theorem Counted.countsReady (h : w.state.Counted) : CountsReady F w :=
  fun hidle => ⟨h.tally.total, h.tally.count,
    fun _ ρ _ hin hall => h.begins hidle ρ hin hall⟩

end Run

end Table

end JyQipai.Mj

namespace JyQipai

open Lib

/-- Ready counting in both rooms, along all runs in which a player who leaves had
pressed ready and a seat that is asked for is free. -/
theorem ready_counting (F : NumFormat) :
    (∀ (cfg : Ddz.Config) (t : Ddz.Table),
      Reach (Ddz.Table.step F) Ddz.Table.KeepsCount (Ddz.Table.newTable cfg) t →
        t.CountsReady F) ∧
      ∀ (cfg : Mj.Config) (ρ : Nat → Nat) (w : Mj.MjWorld),
        Mj.Table.Reachable F cfg ρ Mj.Table.CountRun w → Mj.Table.CountsReady F w := by
  constructor
  · intro cfg t h
    have hcounted : t.Counted := Reach.invariant (Ddz.Table.counted_newTable cfg)
      (fun _ _ ht he => ht.step F he) h
    exact hcounted.countsReady
  · intro cfg ρ w h
    exact h.counted.countsReady

def leaveReady : List Ddz.Event :=
  [.join 1 none, .join 2 none, .join 3 none, .ready 1, .playerExitGame 1]

theorem ready_counting_leaveReady :
    (Ddz.Table.after {} leaveReady).CountsReady .exact :=
  (ready_counting .exact).1 {} _ (reach_run (by decide +kernel))

def leaveEarly : List Ddz.Event := [.join 1 none, .playerExitGame 1]

def threeReady : List Ddz.Event :=
  [.join 1 none, .join 2 none, .join 3 none, .ready 1, .ready 2, .ready 3]

def mjLeaveEarly : List (Input (Mj.Event × (Nat → Nat)) Mj.Answer) :=
  [Mj.Table.cmd (.join 1 none 100), Mj.Table.cmd (.playerExitGame 1)]

def mjConfig : Mj.Config := { gameType := .er13, algo := Mj.plainAlgo }

/-- The counter of the ready seats becomes negative in both rooms; in the Dou
Dizhu room the game then does not begin although all seats are ready. -/
theorem early_leave_miscounts :
    (Ddz.Table.Reachable .exact {} (Ddz.Table.after {} leaveEarly) ∧
      ¬ (Ddz.Table.after {} leaveEarly).CountsReady .exact ∧
      (Ddz.Table.after {} (leaveEarly ++ threeReady)).status = .waitP ∧
      ∀ s ∈ [1, 2, 3], (Ddz.Table.after {} (leaveEarly ++ threeReady)).ready s = 1) ∧
    Mj.Table.Reachable .exact mjConfig (fun _ => 0) (fun _ _ => True)
        (Mj.Table.after mjConfig (fun _ => 0) mjLeaveEarly) ∧
      ¬ Mj.Table.CountsReady .exact
        (Mj.Table.after mjConfig (fun _ => 0) mjLeaveEarly) := by
  refine ⟨⟨Ddz.Table.reachable_after (by decide +kernel), fun h => ?_, by decide +kernel,
    by decide +kernel⟩, Mj.Table.reachable_after _ _ _, fun h => ?_⟩
  · have hcount := (h ⟨by decide +kernel, by decide +kernel⟩).1
    exact absurd hcount (by decide +kernel)
  · have hcount := (h ⟨by decide +kernel, by decide +kernel, by decide +kernel⟩).1
    exact absurd hcount (by decide +kernel)

end JyQipai
