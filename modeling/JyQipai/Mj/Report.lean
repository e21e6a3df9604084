import JyQipai.Mj.Rain

/-!
# The settlement reports the money of the hand

Every booking changes the score of a seat and the money of the hand alike, and a
settlement reports the scores.  After the settlement of the last hand the rest of
`CMD.hu_pai` may still transfer rain; the transfer is then missing in the report.
-/

namespace JyQipai.Mj

open JyQipai.Lib

def Act.isHu (act : Act) : Bool :=
  match act.type with
  | .hu _ => true
  | _ => false

namespace Table

structure ReportsMoney (t : Table) : Prop where
  sent : ∀ r f, t.reported r = some f → ∀ s ∈ t.cfg.seatList, f s = t.money r s
  punctual : t.late = false

/-- The invariant of the money: the scores are the money of the hand, and a hand
with a report, or one that was broken off, is over. -/
structure Report (t : Table) : Prop extends ReportsMoney t where
  timed : Timed t
  score : ∀ s, t.money t.curRace s = (t.sInfo s).score
  later : ∀ r, t.curRace < r → t.reported r = none ∧ ∀ s, t.money r s = 0
  closed : (t.reported t.curRace).isSome → t.phase = .ended
  broken : t.isBreakRace → t.isBreakGame ∧ t.phase = .ended

def reportView (t : Table) :=
  (t.cfg, t.toRaces, t.money, t.reported, t.late, t.status, t.nextStatus,
    fun s => (t.sInfo s).score)

def OpenHand (e : Nat) (t : Table) : Prop :=
  t.curRace = e ∧ t.reported e = none ∧ t.isBreakRace = false

def EndsWithWin (t : Table) : Prop :=
  (∃ a ∈ t.actionList.getLast?, a.isHu) ∨
    ∃ s ∈ t.cfg.seatList,
      (t.waitHuActions s).isSome ∨ (t.qghManagerWaitHu s).isSome

/-- When the last hand is settled after a win, no transfer of rain is due. -/
def NoneDue (t : Table) : Prop :=
  t.status = .settlement → t.isBreakGame ∨ t.cfg.raceCount ≤ t.curRace →
    EndsWithWin t → t.pending = none

section Report

variable {F : NumFormat} {t u : Table} {e : Nat} {b : Prop}

theorem Report.of_view (h : Report t) (hv : u.reportView = t.reportView) : Report u := by
  simp only [reportView, Prod.mk.injEq] at hv
  obtain ⟨hc, hr, hm, hrep, hl, hs, hn, hscore⟩ := hv
  have hphase : u.phase = t.phase := by rw [phase, phase, hs, hn]
  refine ⟨⟨?_, ?_⟩, ?_, ?_, ?_, ?_, ?_⟩
  · rw [hc, hm, hrep]
    exact h.sent
  · rw [hl]
    exact h.punctual
  · rw [Timed, hn]
    exact h.timed
  · intro s
    rw [hr, hm]
    exact (h.score s).trans (congrFun hscore s).symm
  · rw [hr, hm, hrep]
    exact h.later
  · rw [hr, hrep, hphase]
    exact h.closed
  · rw [hr, hphase]
    exact h.broken

theorem Report.enter (h : Report t) {s : Status}
    (hs : (t.reported t.curRace).isSome ∨ t.isBreakRace → (t.enter s).phase = .ended) :
    Report (t.enter s) :=
  { h with
    closed := fun hsome => hs (.inl hsome)
    broken := fun hb => ⟨(h.broken hb).1, hs (.inr hb)⟩ }

structure Going (e : Nat) (b : Prop) (t : Table) : Prop where
  report : Report t
  hand : OpenHand e t
  wins : b → EndsWithWin t

def winView (t : Table) :=
  (t.cfg, t.actionList, t.waitHuActions, t.qghManagerWaitHu)

theorem EndsWithWin.of_view (h : EndsWithWin t) (hv : u.winView = t.winView) :
    EndsWithWin u := by
  simp only [winView, Prod.mk.injEq] at hv
  obtain ⟨hc, ha, hw, hr⟩ := hv
  rw [EndsWithWin, hc, ha, hw, hr]
  exact h

theorem OpenHand.of_view (h : OpenHand e t) (hv : u.reportView = t.reportView) :
    OpenHand e u := by
  simp only [reportView, Prod.mk.injEq] at hv
  obtain ⟨-, hr, -, hrep, -⟩ := hv
  rw [OpenHand, hr, hrep]
  exact h

theorem Going.same (h : Going e b t) (hv : u.reportView = t.reportView)
    (hw : u.winView = t.winView) : Going e b u :=
  ⟨h.report.of_view hv, h.hand.of_view hv, fun hb => (h.wins hb).of_view hw⟩

theorem Going.enter (h : Going e b t) (s : Status) : Going e b (t.enter s) := by
  refine ⟨h.report.enter fun hover => ?_, h.hand, fun hb => (h.wins hb).of_view rfl⟩
  rw [h.hand.1, h.hand.2.1, h.hand.2.2] at hover
  simp at hover

theorem Going.book (h : Going e b t) (s : Nat) (m n : Int) :
    Going e b (t.book e s m n) := by
  obtain ⟨hrace, hnone, hunbroken⟩ := h.hand
  have hreport := h.report
  refine ⟨⟨⟨fun r f hf x hx => ?_, ?_⟩, hreport.timed, fun x => ?_, fun r hr => ?_, ?_, ?_⟩,
    ⟨hrace, hnone, hunbroken⟩, fun hb => (h.wins hb).of_view rfl⟩
  · have hne : r ≠ e := by
      rintro rfl
      rw [show (t.book r s m n).reported = t.reported from rfl, hnone] at hf
      cases hf
    rw [show (t.book e s m n).money r x = t.money r x by simp [Table.book, hne]]
    exact hreport.sent r f hf x hx
  · have hlate : (t.book e s m n).late =
        (t.late || (t.reported e).isSome || decide (t.curRace ≠ e)) := rfl
    rw [hlate, hreport.punctual, hnone, hrace]
    simp
  · have hscore := hreport.score x
    rw [hrace] at hscore
    rw [show (t.book e s m n).curRace = e from hrace]
    by_cases hx : x = s
    · subst hx
      simp [Table.book, hscore]
    · simp [Table.book, hx, hscore]
  · have hlt : e < r := hrace ▸ hr
    rw [show (t.book e s m n).money r = t.money r by simp [Table.book, hlt.ne']]
    exact hreport.later r hr
  · exact hreport.closed
  · exact hreport.broken

/-- What holds when a command ends: after a win that was announced the hand goes
on or no transfer is due. -/
structure Ended (e : Nat) (b : Prop) (t : Table) : Prop where
  report : Report t
  none : b → OpenHand e t ∨ t.pending = none

theorem Going.ended (h : Going e b t) : Ended e b t := ⟨h.report, fun _ => .inl h.hand⟩

theorem Ended.same (h : Ended e b t) (hv : u.reportView = t.reportView)
    (hn : u.noteView = t.noteView) : Ended e b u := by
  refine ⟨h.report.of_view hv, fun hb => (h.none hb).imp (·.of_view hv) fun hp => ?_⟩
  exact ((noted_pending t.pending).view hn (.inl rfl)).elim (·.trans hp) id

abbrev ReportSat (Q : Table → Prop) (p : M α) : Prop :=
  Sat Rerolled NoneDue Report Report (fun _ => Q) p

theorem noneDue_rand {t : Table} (ρ : Nat → Nat) (h : NoneDue t) :
    NoneDue { t with rand := ρ } := h

theorem steady_going : Steady Rerolled NoneDue Report Report (Going e b) :=
  .of_rand (fun h => h.report) (fun h => h.report) fun _ h => h.same rfl rfl

/-! ## Settlement -/

theorem Report.sent_settlement (h : Report t) {scores : Nat → Int}
    (hs : ∀ s ∈ t.cfg.seatList, scores s = (t.sInfo s).score) (r : Nat) (f : Nat → Int)
    (hf : (t.sendSettlement scores).reported r = some f) :
    ∀ s ∈ t.cfg.seatList, f s = t.money r s := by
  intro s hmem
  by_cases hr : r = t.curRace
  · subst hr
    have hscores : f = scores := by simpa [sendSettlement] using hf.symm
    rw [hscores, hs s hmem, h.score s]
  · refine h.sent r f ?_ s hmem
    simpa [sendSettlement, hr] using hf

theorem Report.gameover (h : Report t) {scores : Nat → Int}
    (hs : ∀ s ∈ t.cfg.seatList, scores s = (t.sInfo s).score) :
    Report ((t.sendSettlement scores).wait .gameover) := by
  refine ⟨⟨h.sent_settlement hs, h.punctual⟩, fun next hnext => ?_, h.score, fun r hr => ?_,
    fun _ => rfl, fun hb => ⟨(h.broken hb).1, rfl⟩⟩
  · obtain rfl := Option.some.inj hnext
    rfl
  · have hlt : t.curRace < r := hr
    refine ⟨?_, (h.later r hlt).2⟩
    exact (Function.update_of_ne hlt.ne' _ _).trans (h.later r hlt).1

theorem Report.nextGame (h : Report t) {scores : Nat → Int}
    (hs : ∀ s ∈ t.cfg.seatList, scores s = (t.sInfo s).score) :
    Report (t.sendSettlement scores).nextGame := by
  unfold Table.nextGame
  split
  · exact h.gameover hs
  · next hgoes =>
    have hlater := h.later (t.curRace + 1) (Nat.lt_succ_self _)
    have hnone : (t.sendSettlement scores).reported (t.curRace + 1) = none :=
      (Function.update_of_ne (Nat.succ_ne_self _) _ _).trans hlater.1
    refine ⟨⟨h.sent_settlement hs, h.punctual⟩, h.timed, hlater.2, fun r hr => ?_,
      fun hsome => ?_, fun hb => absurd (.inl (h.broken hb).1) hgoes⟩
    · have hlt : t.curRace < r := Nat.lt_of_succ_lt hr
      refine ⟨?_, (h.later r hlt).2⟩
      exact (Function.update_of_ne hlt.ne' _ _).trans (h.later r hlt).1
    · have hfalse : ((t.sendSettlement scores).reported (t.curRace + 1)).isSome := hsome
      rw [hnone] at hfalse
      cases hfalse

theorem reportView_settleGenDatas (t : Table) :
    t.settleGenDatas.reportView = t.reportView := by
  have hscore : (fun s => (t.settleGenDatas.sInfo s).score) = fun s => (t.sInfo s).score := by
    funext s
    unfold settleGenDatas
    dsimp only
    split <;> rfl
  rw [reportView, hscore]
  rfl

theorem pending_nextGame {scores : Nat → Int}
    (h : t.isBreakGame ∨ t.cfg.raceCount ≤ t.curRace → t.pending = none) :
    (t.sendSettlement scores).nextGame.pending = none := by
  unfold Table.nextGame
  split
  · next hlast => exact h hlast
  · unfold pending
    split <;> rfl

theorem report_settle (h : Going e b t) : ReportSat (Ended e b) (settle F t) := by
  have hgen : Going e b (t.enter .settlement).settleGenDatas :=
    (h.enter .settlement).same (reportView_settleGenDatas _) rfl
  refine sat_settle (D := fun u => Going e b u ∧ u.status = .settlement)
    (.of_rand (fun hu => hu.1.report) (fun hu => hu.1.report)
      fun _ hu => ⟨hu.1.same rfl rfl, hu.2⟩)
    noneDue_rand (fun _ u s m n hu => ?_) (h.enter .settlement).report ⟨hgen, rfl⟩ ?_ ?_
  · rw [h.hand.1]
    exact ⟨hu.1.book s m n, hu.2⟩
  · intro u hu
    have hbroke : Going e b u.settleBankrupt := hu.1.same rfl rfl
    refine ⟨hbroke.report, fun ρ hv hdue => ?_⟩
    obtain ⟨ρ', rfl⟩ := hv
    refine ⟨?_, fun hb => .inr ?_⟩
    · refine Report.nextGame ?_ fun _ _ => rfl
      exact hbroke.report.of_view rfl
    · refine pending_nextGame fun hlast => ?_
      exact hdue hu.2 hlast (hbroke.wins hb)
  · intro u hu hb
    rw [hu.1.hand.2.2] at hb
    cases hb

theorem report_settle_break (h : Report t) :
    ReportSat Report (settle F { t with isBreakGame := true, isBreakRace := true }) := by
  have hover : Report ({ t with
      isBreakGame := true
      isBreakRace := true }.enter .settlement) :=
    ⟨⟨h.sent, h.punctual⟩, h.timed, h.score, h.later, fun _ => rfl, fun _ => ⟨rfl, rfl⟩⟩
  refine sat_settle (D := Report) (.of_rand id id fun _ hu => hu.of_view rfl) noneDue_rand
    (fun hb => by cases hb) hover (hover.of_view (reportView_settleGenDatas _)) (fun {u} hu => ?_)
    fun {u} hu _ => Report.nextGame (hu.of_view (u := u.settleBankrupt) rfl) fun _ _ => rfl
  have hbroke : Report u.settleBankrupt := hu.of_view rfl
  refine ⟨hbroke, fun ρ hv _ => ?_⟩
  obtain ⟨ρ', rfl⟩ := hv
  refine Report.nextGame ?_ fun _ _ => rfl
  exact hbroke.of_view rfl

/-! ## Turns and melds -/

theorem Going.draw (h : Going e b t) : Going e b t.draw.2 := by
  have hpop : ∀ {t : Table}, Going e b t → Going e b t.popPai.2 := by
    intro t h
    unfold popPai
    split
    · exact h
    · split
      · exact h
      · exact h.same rfl rfl
  have hignore : Going e b { t with
      pIgnoreHu := Function.update t.pIgnoreHu t.curP none } := h.same rfl rfl
  exact (hpop hignore).same rfl rfl

theorem Going.report_of_view (h : Going e b t) (hv : u.reportView = t.reportView) :
    Ended e b u :=
  ⟨h.report.of_view hv, fun _ => .inl (h.hand.of_view hv)⟩

theorem report_statusMoPai (h : Going e b t) : ReportSat (Ended e b) (statusMoPai F t) := by
  have hmo := h.enter .moPai
  unfold statusMoPai
  dsimp only
  split
  · exact report_settle hmo
  · generalize decide ((_ : Nat) ≤ _) = isOver
    have hcheck : Going e b ((t.enter .moPai).noteCheck isOver) := hmo.same rfl rfl
    split
    · exact report_settle hcheck
    · have hdraw := hcheck.draw
      split
      · next u hu =>
        rw [hu] at hdraw
        exact report_settle hdraw
      · next pai u hu =>
        rw [hu] at hdraw
        exact hdraw.report_of_view rfl

theorem report_dealGuo (h : Going e b t) : ReportSat (Ended e b) (dealGuo F t) := by
  unfold dealGuo
  split
  · exact h.report
  · dsimp only
    split
    · exact h.report.of_view rfl
    · exact report_statusMoPai (h.same rfl rfl)

theorem report_movePaiForPg (h : Going e b t) {s pai : Nat} {type : PgType}
    {k : Table → M α} {Q : Table → Prop} (hk : ∀ u, Going e b u → ReportSat Q (k u)) :
    ReportSat Q (t.movePaiForPg s pai type k) := by
  unfold movePaiForPg
  split
  · exact h.report
  · exact hk _ (h.same rfl rfl)

theorem Going.addAct (h : Going e False t) (act : Act) : Going e False (t.addAct act) :=
  ⟨h.report.of_view rfl, h.hand, False.elim⟩

theorem report_dealPengPai (h : Going e False t) {act : Act} :
    ReportSat (Ended e False) (t.dealPengPai act) := by
  refine report_movePaiForPg h fun u hu => ?_
  have hpermit : Going e False (u.setPermit act.p {}) := hu.same rfl rfl
  exact ((hpermit.addAct act).enter .cp).report_of_view rfl

theorem report_gangDone (h : Going e False t) {act : Act} {type : PgType} :
    ReportSat (Ended e False) (gangDone F t act type) := by
  refine report_movePaiForPg h fun u hu => ?_
  exact report_statusMoPai ((hu.addAct act).same rfl rfl)

theorem Going.of_sInfo (h : Going e b t) {f : Nat → SInfo}
    (hf : ∀ s, (f s).score = (t.sInfo s).score) : Going e b { t with sInfo := f } := by
  refine h.same ?_ rfl
  simp only [reportView, Prod.mk.injEq, true_and]
  exact funext hf

theorem report_dealChangeScore (h : Going e b t) {seat : Nat} {total : ℚ}
    {others : List Nat} {type : PayType} {k : Int → Int → Table → M α} {Q : Table → Prop}
    (hk : ∀ m n u, Going e b u → ReportSat Q (k m n u)) :
    ReportSat Q (dealChangeScore F t e seat total others type k) :=
  sat_dealChangeScore (P := NoneDue) steady_going noneDue_rand (fun _ _ hu => hu.book _ _ _)
    (fun hu _ => hu) hk h

theorem report_recordGangScore (h : Going e False t) {seat : Nat} {type : PgType} {pai : Nat}
    {others : List Nat} {k : Table → M α} {Q : Table → Prop}
    (hk : ∀ u, Going e False u → ReportSat Q (k u)) :
    ReportSat Q (t.recordGangScore F e seat type pai others k) := by
  unfold recordGangScore
  split
  · exact hk t h
  · refine report_dealChangeScore h fun _ _ u hu => hk _ (hu.of_sInfo fun s => ?_)
    by_cases hs : s = seat
    · subst hs
      simp
    · simp [hs]

theorem report_dealGang (h : Going e False t) {act : Act} {type : PgType} :
    ReportSat (Ended e False) (dealGang F t e act type) := by
  unfold dealGang
  split
  · split
    · exact h.report
    · exact report_recordGangScore h fun _ hu => report_gangDone hu
  · exact report_recordGangScore h fun _ hu => report_gangDone hu

theorem report_dealWGangFinish (h : Going e False t) {act : Act} :
    ReportSat (Ended e False) (dealWGangFinish F t e act) := by
  have hmo : ∀ u, Going e False u →
      ReportSat (Ended e False) (statusMoPai F { u with curP := act.p }) :=
    fun u hu => report_statusMoPai (hu.same rfl rfl)
  unfold dealWGangFinish
  dsimp only
  split
  · exact hmo t h
  · exact report_recordGangScore h hmo

theorem report_dealWGang (h : Going e False t) {act : Act} :
    ReportSat (Ended e False) (dealWGang F t e act) := by
  refine report_movePaiForPg h fun u hu => ?_
  have hrob : Going e False (u.wGangMoved act).offerRob := (hu.addAct act).same rfl rfl
  dsimp only
  split
  · exact report_dealWGangFinish hrob
  · exact (hrob.enter .qiangGangHu).report_of_view rfl

/-! ## Wins -/

theorem Going.win (h : Going e b t) (a : HuAct) : Going e b (t.win a) := by
  unfold Table.win
  dsimp only
  split
  · exact h.same rfl rfl
  · exact h.same rfl rfl
  · exact h.same rfl rfl

theorem Going.huAct (h : Going e b t) (a : HuAct) (c : Prop) :
    Going e c ((t.setHu a).addAct (HuAct.act a)) := by
  have hset : Going e b (t.setHu a) := h.of_sInfo fun s => by
    by_cases hs : s = a.p
    · subst hs
      simp
    · simp [hs]
  refine ⟨hset.report.of_view rfl, hset.hand, fun _ => .inl ⟨HuAct.act a, ?_, rfl⟩⟩
  simp [Table.addAct]

theorem report_dealHuLoop {actions : Nat → Option HuAct} {k : Table → M Unit}
    {Q : Table → Prop} (hk : ∀ u, Going e b u → ReportSat Q (k u)) (n : Nat)
    (s : Option Nat) (h : Going e b t) :
    ReportSat Q (dealHuLoop F e actions k n s t) := by
  induction n generalizing s t with
  | zero => exact hk t h
  | succ n ih =>
      cases s with
      | none => exact h.report
      | some s =>
          unfold dealHuLoop
          split
          · exact ih _ h
          · next a _ =>
            refine report_dealChangeScore (h.win a) fun _ _ u hu => ?_
            exact ih _ (hu.huAct a b)

theorem report_huEnd (h : Going e b t) : ReportSat (Ended e b)
    (let broke := t.brokeSeats.length
      let t := t.dealGameBankrupt
      let isOver : Bool := t.cfg.seatCount ≤ t.huNum + broke + 1
      let t := t.noteCheck isOver
      if isOver then settle F t else dealGuo F t) := by
  dsimp only
  generalize decide ((_ : Nat) ≤ _) = isOver
  have hcheck : Going e b (t.dealGameBankrupt.noteCheck isOver) := h.same rfl rfl
  split
  · exact report_settle hcheck
  · exact report_dealGuo hcheck

theorem report_dealHu (h : Going e b t) {actions : Nat → Option HuAct} :
    ReportSat (Ended e b) (dealHu F t e actions) := by
  unfold dealHu
  split
  · exact h.report
  · exact report_dealHuLoop (fun _ hu => report_huEnd hu) _ _ h

theorem findSome?_update {l : List Nat} {s : Nat} (hs : s ∈ l) (a : HuAct) :
    l.findSome? (Function.update (fun _ => none) s (some a)) = some a := by
  induction l with
  | nil => cases hs
  | cons x l ih =>
      by_cases hx : x = s
      · subst hx
        simp
      · have hmem : s ∈ l := (List.mem_cons.mp hs).resolve_left (Ne.symm hx)
        simp [hx, ih hmem]

theorem report_dealHu_self (h : Going e False t) {a : HuAct} {seat : Nat}
    (ha : a.p = seat) (hpao : a.info.dianpaoP = none) (hseat : seat ∈ t.cfg.seatList) :
    ReportSat (Ended e True)
      (dealHu F t e (Function.update (fun _ => none) seat (some a))) := by
  subst ha
  have hfind := findSome?_update hseat a
  have hcount : ∃ n, t.cfg.seatCount = n + 1 := by
    cases hg : t.cfg.gameType <;> simp [Config.seatCount, hg, GameType.seatCount]
  obtain ⟨n, hn⟩ := hcount
  unfold dealHu
  rw [hfind]
  dsimp only
  rw [hpao, hn]
  dsimp only
  unfold dealHuLoop
  rw [Function.update_self]
  dsimp only
  refine report_dealChangeScore (h.win a) fun _ _ u hu => ?_
  exact report_dealHuLoop (fun _ hu => report_huEnd hu) _ _ (hu.huAct a True)

/-! ## Claims -/

theorem report_qiangGangHuManager (h : Going e False t) {p : Nat} {hu : Option HuAct} :
    ReportSat (Ended e False) (t.qiangGangHuManager F e p hu) := by
  have hnote : Going e False (t.noteRob p hu) := ⟨h.report.of_view rfl, h.hand, False.elim⟩
  unfold qiangGangHuManager
  dsimp only
  split
  · split
    · exact hnote.report
    · next act _ =>
      refine Prog.Sat.bind ?_ fun _ u (hu : Ended e False u) => hu.same rfl rfl
      split
      · refine report_dealHu ?_
        exact ⟨hnote.report.of_view rfl, hnote.hand, False.elim⟩
      · exact report_dealWGangFinish hnote
  · exact hnote.ended

theorem report_qiangGangHuManager_hu (h : Going e False t) {seat : Nat}
    (hseat : seat ∈ t.cfg.seatList) {a : HuAct} :
    ReportSat (Ended e True) (t.qiangGangHuManager F e seat (some a)) := by
  have hsome : ((t.noteRob seat (some a)).qghManagerWaitHu seat).isSome := by simp [noteRob]
  have hnote : Going e True (t.noteRob seat (some a)) :=
    ⟨h.report.of_view rfl, h.hand, fun _ => .inr ⟨seat, hseat, .inr hsome⟩⟩
  have hwin : ((t.noteRob seat (some a)).cfg.seatList.any fun s =>
      ((t.noteRob seat (some a)).qghManagerWaitHu s).isSome) = true :=
    List.any_eq_true.mpr ⟨seat, hseat, hsome⟩
  unfold qiangGangHuManager
  dsimp only
  split
  · split
    · exact hnote.report
    · next act _ =>
      refine Prog.Sat.bind ?_ fun _ u (hu : Ended e True u) => hu.same rfl rfl
      refine report_dealHu ?_
      exact ⟨hnote.report.of_view rfl, hnote.hand, fun _ => .inr ⟨seat, hseat, .inr hsome⟩⟩
  · exact hnote.ended

theorem report_pengGangHuManager (h : Going e False t) {c : Claim} :
    ReportSat (Ended e False) (t.pengGangHuManager F e c) := by
  have hnote : Going e False (t.noteClaim c) := by
    refine ⟨?_, ?_, False.elim⟩
    · cases c <;> exact h.report.of_view rfl
    · cases c <;> exact h.hand
  unfold pengGangHuManager
  dsimp only
  split
  · refine Prog.Sat.bind ?_ fun _ u (hu : Ended e False u) => hu.same rfl rfl
    split
    · exact report_dealHu hnote
    · split
      · next act _ =>
        split
        · exact report_dealPengPai hnote
        · split
          · exact report_dealGang hnote
          · exact hnote.report
      · exact report_dealGuo hnote
  · exact hnote.ended

theorem report_pengGangHuManager_hu (h : Going e False t) {a : HuAct}
    (ha : a.p ∈ t.cfg.seatList) :
    ReportSat (Ended e True) (t.pengGangHuManager F e (.hu a)) := by
  have hsome : ((t.noteClaim (.hu a)).waitHuActions a.p).isSome := by simp [noteClaim]
  have hnote : Going e True (t.noteClaim (.hu a)) :=
    ⟨h.report.of_view rfl, h.hand, fun _ => .inr ⟨a.p, ha, .inl hsome⟩⟩
  have hwin : ((t.noteClaim (.hu a)).cfg.seatList.any fun s =>
      ((t.noteClaim (.hu a)).waitHuActions s).isSome) = true :=
    List.any_eq_true.mpr ⟨a.p, ha, hsome⟩
  unfold pengGangHuManager
  dsimp only
  split
  · refine Prog.Sat.bind ?_ fun _ u (hu : Ended e True u) => hu.same rfl rfl
    exact report_dealHu hnote
  · exact hnote.ended

/-! ## Commands -/

theorem dianpaoP_of_huType {hu : HuInfo} (h : huTypeOf hu = .zimo ∨ huTypeOf hu = .tianHu) :
    hu.dianpaoP = none := by
  cases hd : hu.dianpaoP with
  | none => rfl
  | some d =>
      unfold huTypeOf at h
      rw [hd] at h
      cases hq : hu.qiangganghu <;> simp [hq] at h

theorem Report.going (h : Report t) {l : List Status} {seat : Nat} (hmay : t.mayDo l seat)
    (hl : ∀ s ∈ l, s.phase = .play ∧ s ≠ .wait) : Going t.curRace False t := by
  simp only [mayDo, Bool.decide_and, Bool.and_eq_true, decide_eq_true_eq] at hmay
  obtain ⟨hplay, hne⟩ := hl _ hmay.1
  have hgoes : t.phase ≠ .ended := by
    rw [phase_of_status rfl hne, hplay]
    decide
  refine ⟨h, ⟨rfl, ?_, ?_⟩, False.elim⟩
  · by_contra hrep
    exact hgoes (h.closed (Option.isSome_iff_ne_none.mpr hrep))
  · by_contra hb
    exact hgoes (h.broken (Bool.eq_true_of_not_eq_false hb)).2

theorem report_of_ended {p : M α} (h : ReportSat (Ended e b) p) : ReportSat Report p :=
  h.mono (fun _ => id) fun _ _ hu => hu.report

theorem report_chuPai (h : Report t) {seat pai : Nat} :
    ReportSat Report (t.chuPai F seat pai) := by
  unfold chuPai
  split
  · next hmay =>
    have hgoing := h.going hmay (by decide)
    dsimp only
    split
    · exact h.of_view rfl
    · next n _ =>
      refine Prog.Sat.bind (R := fun _ => Report) ?_ fun _ u hu => hu
      have hdone : Going t.curRace False ((t.setDone seat false).discard seat pai n) :=
        ⟨h.of_view rfl, hgoing.hand, False.elim⟩
      have hfinish := hdone.enter .cpFinish
      unfold dealChuPai
      dsimp only
      have hoffer : ∀ cs, Going t.curRace False
          ((((t.setDone seat false).discard seat pai n).enter .cpFinish).offer cs) := by
        intro cs
        have hstatus := hfinish.enter (if cs = [] then .cpFinish else .pengGangHu)
        exact hstatus.same rfl rfl
      split
      · exact report_of_ended (report_dealGuo ((hoffer _).same rfl rfl))
      · exact (hoffer _).report.of_view rfl
  · exact h

theorem report_guoPai (h : Report t) {seat : Nat} : ReportSat Report (t.guoPai F seat) := by
  unfold guoPai
  split
  · next hmay =>
    have hgoing := h.going hmay (by decide)
    dsimp only
    split
    · exact h.of_view rfl
    · refine Prog.Sat.bind (R := fun _ => Report) ?_ fun _ u hu => hu
      split
      · refine report_of_ended (report_qiangGangHuManager (e := t.curRace) ?_)
        exact hgoing.same rfl rfl
      · refine report_of_ended (report_pengGangHuManager (e := t.curRace) ?_)
        exact hgoing.same rfl rfl
  · exact h

theorem report_pengPai (h : Report t) {seat pai : Nat} :
    ReportSat Report (t.pengPai F seat pai) := by
  unfold pengPai
  split
  · next hmay =>
    have hgoing := h.going hmay (by decide)
    refine Prog.Sat.bind (R := fun _ => Report) ?_ fun _ u hu => hu
    refine report_of_ended (report_pengGangHuManager (e := t.curRace) ?_)
    exact hgoing.same rfl rfl
  · exact h

theorem report_gangPai (h : Report t) {seat : Nat} {type : GangArg} {pai : Nat} :
    ReportSat Report (t.gangPai F seat type pai) := by
  unfold gangPai
  split
  · next hmay =>
    have hgoing := h.going hmay (by decide)
    have hdone : Going t.curRace False { t.setDone seat false with
        pIgnoreHu := Function.update t.pIgnoreHu seat none } := hgoing.same rfl rfl
    refine Prog.Sat.bind (R := fun _ => Report) ?_ fun _ u hu => hu.of_view rfl
    cases type with
    | ag => exact report_of_ended (report_dealGang hdone)
    | zg => exact report_of_ended (report_pengGangHuManager hdone)
    | wg => exact report_of_ended (report_dealWGang hdone)
    | jwg => exact report_of_ended (report_dealWGang hdone)
  · exact h

theorem report_zhuanYu (h : Ended e True t) {seat : Nat} {a : HuAct} {acts : List Act} :
    ReportSat Report (t.zhuanYu F e seat a acts) := by
  unfold zhuanYu
  split
  · exact h.report
  · next g hg =>
    split
    · exact h.report
    · next gang hgang =>
      split
      · next hswitch =>
        have hdue : t.pending ≠ none := by
          rw [pending, if_pos hswitch, hg, Option.bind_some, hgang]
          simp
        have hopen : OpenHand e t := (h.none trivial).resolve_right hdue
        refine report_dealChangeScore (b := False) ?_ fun _ _ u hu => hu.report
        have hgoing : Going e False t := ⟨h.report, hopen, False.elim⟩
        have hinfo := hgoing.of_sInfo (f := Function.update t.sInfo g { t.sInfo g with
            gangScore := (t.sInfo g).gangScore.dropLast ++
              [{ gang with zhuanYuTo := some seat }] }) fun s => by
          by_cases hs : s = g
          · subst hs
            simp
          · simp [hs]
        exact hinfo.same rfl rfl
      · exact h.report

theorem report_huPai (h : Report t) {seat : Nat} (hseat : seat ∈ t.cfg.seatList) :
    ReportSat Report (t.huPai F seat) := by
  unfold huPai
  split
  · next hmay =>
    have hgoing := h.going hmay (by decide)
    have hdone : Going t.curRace False (t.setDone seat false) := hgoing.same rfl rfl
    dsimp only
    split
    · exact hdone.report
    · next hu hhu =>
      refine Prog.Sat.bind (R := fun _ => Ended t.curRace True) ?_ fun _ u hu =>
        report_zhuanYu hu
      cases hty : huTypeOf hu with
      | qghu =>
          refine report_qiangGangHuManager_hu (e := t.curRace) ?_ ?_
          · exact hgoing.same rfl rfl
          · exact hseat
      | pao => exact report_pengGangHuManager_hu hdone hseat
      | zimo =>
          exact report_dealHu_self hdone rfl (dianpaoP_of_huType (.inl hty)) hseat
      | tianHu =>
          exact report_dealHu_self hdone rfl (dianpaoP_of_huType (.inr hty)) hseat
  · exact h

/-! ## Runs -/

/-- The manager breaks off a game only if no score of the hand has changed; wins
are announced by seats of the table. -/
def ReportOk (t : Table) (ev : Event) : Prop :=
  OnTime t ev ∧
    match ev with
    | .huPai seat => seat ∈ t.cfg.seatList
    | .forceBreakGame => ∀ s ∈ t.cfg.seatList, (t.sInfo s).score = 0
    | _ => True

theorem report_newTable (cfg : Config) (ρ : Nat → Nat) : Report (newTable cfg ρ) := by
  refine ⟨⟨?_, rfl⟩, ?_, ?_, ?_, ?_, ?_⟩ <;> simp [newTable, newGame, Timed]

theorem Report.calm (h : Report t) (hu : Calm t u) : Report u := by
  have hcore := hu.core
  simp only [core, Prod.mk.injEq] at hcore
  obtain ⟨hc, -, -, hr, htrace, hinfo, -⟩ := hcore
  have hends : t.phase = .ended → u.phase = .ended := by
    intro hover
    rcases hu.phase with hp | ⟨hp, -⟩
    · exact hp.trans hover
    · rw [hover] at hp
      cases hp
  refine ⟨⟨?_, ?_⟩, hu.timed, ?_, ?_, fun hsome => ?_, fun hb => ?_⟩
  · rw [hc, htrace]
    exact h.sent
  · rw [htrace]
    exact h.punctual
  · rw [hr, htrace, hinfo]
    exact h.score
  · rw [hr, htrace]
    exact h.later
  · rw [hr, htrace] at hsome
    exact hends (h.closed hsome)
  · rw [hr] at hb ⊢
    exact (h.broken hb).imp_right hends

theorem Report.breakGame (h : Report t) : Report { t with isBreakGame := true } :=
  ⟨⟨h.sent, h.punctual⟩, h.timed, h.score, h.later, h.closed,
    fun hb => ⟨rfl, (h.broken hb).2⟩⟩

theorem upkeep_report (F : NumFormat) : Upkeep F Rerolled NoneDue Report Report ReportOk where
  timed h := h.timed
  waits h := h
  wakes h hu _ := by
    obtain ⟨ρ, rfl⟩ := hu
    exact h.of_view rfl
  calm h := h.calm
  ready h hok := sat_of_calmly Report.calm h (calmly_readyCmd h.timed _ hok.1)
  finish {t s} h hplay hs := by
    refine h.enter fun _ => ?_
    have hne : s ≠ .wait := by
      rintro rfl
      cases hs
    exact (phase_of_status (t := t.enter s) rfl hne).trans hs
  gone h := h.of_view rfl
  settle h _ := report_settle_break h
  broken {t} h := h.breakGame
  force {t} h hok := by
    have hbreak : Report { t with isBreakGame := true } := h.breakGame
    refine sat_saveRaceOverLog hbreak (fun _ => ?_) fun ρ hu _ => ?_
    · exact Report.gameover hbreak fun s hs => (hok.2 s hs).symm
    · obtain ⟨ρ', rfl⟩ := hu
      refine Report.gameover ?_ fun s hs => (hok.2 s hs).symm
      exact hbreak.of_view rfl
  plays {t ev} h hok hplays := by
    cases ev with
    | chuPai seat pai => exact report_chuPai h
    | guoPai seat => exact report_guoPai h
    | pengPai seat pai => exact report_pengPai h
    | gangPai seat type pai => exact report_gangPai h
    | huPai seat => exact report_huPai h hok.2
    | _ => cases hplays

end Report

/-- The settlement reports all money of the hand, and no payment of a hand comes
after its report or in the next hand. -/
theorem Reachable.reports_money {F : NumFormat} {cfg : Config} {ρ : Nat → Nat} {w : MjWorld}
    (h : Reachable F cfg ρ (Orderly ReportOk NoneDue) w) : ReportsMoney w.state :=
  ((upkeep_report F).of_orderly (report_newTable cfg ρ) h).toReportsMoney

/-! ## A transfer after the last settlement -/

instance decidableNoneDue (t : Table) : Decidable (NoneDue t) := by
  unfold NoneDue EndsWithWin
  infer_instance

instance decidableReportOk (t : Table) : ∀ ev, Decidable (ReportOk t ev) := by
  rintro (_ | _) <;> unfold ReportOk <;> infer_instance

def lastTiles : List Nat :=
  dealOrder
    [[11, 11, 11, 11, 12, 13, 14, 21, 22, 23, 24, 18, 25],
     [12, 13, 14, 15, 16, 17, 21, 22, 23, 27, 28, 29, 25]]
    [26, 19]

def lastConfig (zhuanYu : Bool) : Config :=
  { gameType := .er13, algo := plainAlgo, zhuanYu := zhuanYu }

def lastRun : List (Input (Event × (Nat → Nat)) Answer) :=
  erOpening (fun _ => 100) ++
  [cmd (.gangPai 1 .ag 11), ans (-2), ans 2, cmd (.chuPai 1 25), cmd (.huPai 2), ans (-1),
    ans 1, ans 0]

theorem lastRun_allowed :
    Allowed (World.step (Table.step .exact)) (Orderly ReportOk NoneDue)
        ⟨newTable (lastConfig false) (rig .er13 lastTiles), []⟩ lastRun ∧
      ((after (lastConfig false) (rig .er13 lastTiles) lastRun).state.reported 1).map
        (fun f => (f 1, f 2)) = some (1, -1) := by
  rw [after, newTable_rig _ .er13 lastTiles rfl (by decide +kernel)]
  decide +kernel

theorem reports_money_lastRun :
    ((after (lastConfig false) (rig .er13 lastTiles) lastRun).state.reported 1).map
        (fun f => (f 1, f 2)) = some (1, -1) ∧
      ReportsMoney (after (lastConfig false) (rig .er13 lastTiles) lastRun).state :=
  ⟨lastRun_allowed.2, Reachable.reports_money (reach_run lastRun_allowed.1)⟩

def lastRain : List (Input (Event × (Nat → Nat)) Answer) :=
  lastRun ++ [ans (-2), ans 2]

theorem lastRain_money :
    ((after (lastConfig true) (rig .er13 lastTiles) lastRain).state.reported 1).map
        (fun f => f 2) = some (-1) ∧
      (after (lastConfig true) (rig .er13 lastTiles) lastRain).state.money 1 2 = 1 ∧
      (after (lastConfig true) (rig .er13 lastTiles) lastRain).state.cfg.seatList = [1, 2] := by
  rw [after, newTable_rig _ .er13 lastTiles rfl (by decide +kernel)]
  decide +kernel

/-- The second seat is told that it has lost 1, but has won 1 with the rain that
its win brought. -/
theorem rain_after_settlement :
    Reachable .exact (lastConfig true) (rig .er13 lastTiles) (fun _ _ => True)
        (after (lastConfig true) (rig .er13 lastTiles) lastRain) ∧
      ¬ ReportsMoney (after (lastConfig true) (rig .er13 lastTiles) lastRain).state := by
  refine ⟨reachable_after _ _ _, fun h => ?_⟩
  obtain ⟨hsent, hmoney, hseats⟩ := lastRain_money
  obtain ⟨f, hf, hscore⟩ := Option.map_eq_some_iff.mp hsent
  have heq := h.sent 1 f hf 2 (hseats ▸ by decide)
  rw [hscore, hmoney] at heq
  cases heq

end Table

end JyQipai.Mj
