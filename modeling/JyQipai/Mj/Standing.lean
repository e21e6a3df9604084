import JyQipai.Mj.Passing

/-!
# Who is still in the hand

A seat leaves the hand by a win, which `hu_num` counts, or because its money is
used up, which `game_bankrupt` notes.  The two tests for the end of a hand rely on
these records being disjoint.  They are as long as no winner is without money when
`deal_game_bankrupt` looks, and the seats found bankrupt stay and get no money.
-/

namespace JyQipai.Mj

open JyQipai.Lib

namespace Table

structure Exact (t : Table) : Prop where
  winners : t.winners = t.huNum
  marks : ∀ s ∈ t.cfg.seatList, t.gameBankrupt s = true ↔ t.huOrder s = some 0
  quiet : t.cfg.breakExit = false → ∀ s ∈ t.cfg.seatList, t.huOrder s ≠ some 0

/-- The record of a seat agrees with its money: the seats without `hu_order` have
not left, a bankrupt seat is still online without money, and a winner that is
still online has some. -/
def Upright (t : Table) (s : Nat) : Prop :=
  match t.huOrder s with
  | none => (t.onLinePlayer s).isSome
  | some 0 => s ∈ t.brokeSeats
  | some _ => s ∉ t.brokeSeats

/-- Where bankrupt seats leave the hand, every record agrees with the money. -/
def Sound (t : Table) : Prop :=
  t.cfg.breakExit = true → ∀ s ∈ t.cfg.seatList, Upright t s

/-- The records of a hand in play are sound, and a seat that has claimed a pong or
kong has not left. -/
def Fits (t : Table) : Prop :=
  t.phase = .play → Sound t ∧
    (t.cfg.breakExit = true → ∀ act ∈ t.waitPgAction, (t.onLinePlayer act.p).isSome)

def Keyed (wins : Nat → Option HuAct) : Prop :=
  ∀ s a, wins s = some a → a.p = s ∧ a.info.dianpaoP.isSome

def ChecksRight (t : Table) : Prop := ∀ c ∈ t.checks, c.1 = true ↔ c.2 ≤ 1

structure Stands (t : Table) : Prop where
  timed : Timed t
  exact : t.phase ≠ .ended → Exact t
  waitHu : Keyed t.waitHuActions
  robHu : Keyed t.qghManagerWaitHu
  checks : ChecksRight t
  kept : t.overwritten = false

structure Playing (t : Table) : Prop extends Stands t where
  play : t.phase = .play

def standView (t : Table) :=
  (t.cfg, t.toStanding, t.waitHuActions, t.qghManagerWaitHu, t.checks, t.overwritten,
    t.status, t.nextStatus)

section Standing

variable {F : NumFormat} {t u : Table}

/-! ## Counting -/

theorem Exact.of_standing (h : Exact t) (hc : u.cfg = t.cfg)
    (hs : u.toStanding = t.toStanding) : Exact u := by
  refine ⟨?_, ?_, ?_⟩
  · rw [Table.winners, hc, hs]
    exact h.winners
  · rw [hc, hs]
    exact h.marks
  · rw [hc, hs]
    exact h.quiet

theorem countP_standing (l : List Nat) (order : Nat → Option Nat) :
    (l.filter fun s => (order s).isNone).length +
      (l.countP fun s => (order s).any (0 < ·)) +
      (l.filter fun s => order s = some 0).length = l.length := by
  induction l with
  | nil => rfl
  | cons s l ih =>
      rcases ho : order s with _ | _ | n
      · simp [ho]
        omega
      · simp [ho]
        omega
      · simp [ho]
        omega

theorem Exact.bankruptNum (h : Exact t) :
    t.bankruptNum = (t.cfg.seatList.filter fun s => t.huOrder s = some 0).length := by
  unfold Table.bankruptNum
  congr 1
  refine List.filter_congr fun s hs => ?_
  rw [Bool.eq_iff_iff, decide_eq_true_iff]
  exact h.marks s hs

theorem Exact.tally (h : Exact t) :
    t.active.length + t.huNum + t.bankruptNum = t.cfg.seatCount := by
  rw [h.bankruptNum, ← h.winners, ← length_seatList]
  exact countP_standing t.cfg.seatList t.huOrder

theorem Exact.win (h : Exact t) {a : HuAct} (ha : InHand t a.p) : Exact (t.win a) := by
  have hwon := countP_update (nodup_seatList t.cfg) ha.1 (fun o => o.any (0 < ·))
    t.huOrder (some (t.huNum + 1))
  rw [ha.2] at hwon
  have hcount : (t.cfg.seatList.countP fun x =>
      (Function.update t.huOrder a.p (some (t.huNum + 1)) x).any (0 < ·)) = t.huNum + 1 := by
    have hwin : (t.cfg.seatList.countP fun x => (t.huOrder x).any (0 < ·)) = t.huNum :=
      h.winners
    simp [hwin] at hwon
    omega
  have hmarks : ∀ s ∈ t.cfg.seatList, t.gameBankrupt s = true ↔
      Function.update t.huOrder a.p (some (t.huNum + 1)) s = some 0 := by
    intro s hs
    by_cases hsa : s = a.p
    · have hold := h.marks s hs
      rw [hsa, ha.2] at hold
      simpa [hsa] using hold
    · rw [Function.update_of_ne hsa]
      exact h.marks s hs
  have hquiet : t.cfg.breakExit = false → ∀ s ∈ t.cfg.seatList,
      Function.update t.huOrder a.p (some (t.huNum + 1)) s ≠ some 0 := by
    intro hb s hs hzero
    have hmark := (hmarks s hs).mpr hzero
    exact h.quiet hb s hs ((h.marks s hs).mp hmark)
  unfold Table.win
  dsimp only
  split
  · exact ⟨hcount, hmarks, hquiet⟩
  · exact ⟨hcount, hmarks, hquiet⟩
  · exact ⟨hcount, hmarks, hquiet⟩

theorem Sound.not_winner (h : Sound t) {s : Nat} (hs : s ∈ t.brokeSeats) :
    (t.huOrder s).any (0 < ·) = false := by
  obtain ⟨hb, hon, -⟩ := mem_brokeSeats.mp hs
  have hup := h hb s (List.mem_filter.mp hon).1
  unfold Upright at hup
  split at hup
  · next ho => rw [ho]; rfl
  · next ho => rw [ho]; rfl
  · exact absurd hs hup

theorem Exact.dealGameBankrupt (h : Exact t) (hs : Sound t) : Exact t.dealGameBankrupt := by
  refine ⟨?_, fun s hseat => ?_, fun hb s hseat => ?_⟩
  · refine Eq.trans (List.countP_congr fun s _ => ?_) h.winners
    change (if s ∈ t.brokeSeats then some 0 else t.huOrder s).any (0 < ·) = true ↔ _
    split
    · next hbroke =>
      rw [hs.not_winner hbroke]
      exact Iff.rfl
    · exact Iff.rfl
  · change (t.gameBankrupt s || decide (s ∈ t.brokeSeats)) = true ↔
      (if s ∈ t.brokeSeats then some 0 else t.huOrder s) = some 0
    split
    · next hbroke => simp [hbroke]
    · next hbroke => simpa [hbroke] using h.marks s hseat
  · change (if s ∈ t.brokeSeats then some 0 else t.huOrder s) ≠ some 0
    have hb' : t.cfg.breakExit = false := hb
    rw [if_neg fun hbroke => absurd (mem_brokeSeats.mp hbroke).1 (by simp [hb'])]
    exact h.quiet hb s hseat

theorem Exact.brokeSeats_length (h : Exact t) (hs : Sound t) :
    t.dealGameBankrupt.bankruptNum = t.brokeSeats.length := by
  cases hb : t.cfg.breakExit with
  | false =>
      have hnone : t.brokeSeats = [] := by simp [brokeSeats, hb]
      rw [(h.dealGameBankrupt hs).bankruptNum, hnone, List.length_nil,
        List.length_eq_zero_iff, List.filter_eq_nil_iff]
      intro s hseat hzero
      exact (h.dealGameBankrupt hs).quiet hb s hseat (of_decide_eq_true hzero)
  | true =>
      have hfilter : t.brokeSeats = t.cfg.seatList.filter fun s => s ∈ t.brokeSeats := by
        conv_lhs => rw [brokeSeats, if_pos hb, onLine, List.filter_filter]
        refine List.filter_congr fun s hseat => ?_
        rw [Bool.eq_iff_iff, decide_eq_true_iff, mem_brokeSeats, onLine, List.mem_filter]
        simp [hb, hseat, and_comm]
      rw [Table.bankruptNum, hfilter]
      congr 1
      refine List.filter_congr fun s hseat => ?_
      change (t.gameBankrupt s || decide (s ∈ t.brokeSeats)) = decide (s ∈ t.brokeSeats)
      cases hmark : t.gameBankrupt s with
      | false => rfl
      | true =>
          have hup := hs hb s hseat
          rw [Upright, (h.marks s hseat).mp hmark] at hup
          have hbroke : s ∈ t.brokeSeats := hup
          exact (decide_eq_true hbroke).symm

/-! ## Small steps -/

theorem Stands.of_view (h : Stands t) (hv : u.standView = t.standView) : Stands u := by
  simp only [standView, Prod.mk.injEq] at hv
  obtain ⟨hc, hs, hw, hq, hch, ho, hst, hn⟩ := hv
  have hphase : u.phase = t.phase := by rw [phase, phase, hst, hn]
  refine ⟨?_, fun hover => ?_, hw ▸ h.waitHu, hq ▸ h.robHu, ?_, ho.trans h.kept⟩
  · rw [Timed, hn]
    exact h.timed
  · exact (h.exact (hphase ▸ hover)).of_standing hc hs
  · rw [ChecksRight, hch]
    exact h.checks

theorem Playing.of_view (h : Playing t) (hv : u.standView = t.standView) : Playing u := by
  refine ⟨h.toStands.of_view hv, ?_⟩
  simp only [standView, Prod.mk.injEq] at hv
  obtain ⟨-, -, -, -, -, -, hst, hn⟩ := hv
  rw [phase, hst, hn]
  exact h.play

theorem Playing.sure (h : Playing t) : Exact t := h.exact (by simp [h.play])

theorem Playing.enter (h : Playing t) {s : Status} (hs : s.phase = .play) :
    Playing (t.enter s) := by
  have hne : s ≠ .wait := by
    rintro rfl
    cases hs
  have hplay : (t.enter s).phase = .play := (phase_of_status rfl hne).trans hs
  exact ⟨⟨h.timed, fun _ => h.sure.of_standing rfl rfl, h.waitHu, h.robHu, h.checks, h.kept⟩,
    hplay⟩

theorem Stands.finish (h : Stands t) {s : Status} (hs : s.phase = .ended) :
    Stands (t.enter s) := by
  have hne : s ≠ .wait := by
    rintro rfl
    cases hs
  have hover : (t.enter s).phase = .ended := (phase_of_status rfl hne).trans hs
  exact ⟨h.timed, fun hno => absurd hover hno, h.waitHu, h.robHu, h.checks, h.kept⟩

theorem Stands.gameover (h : Stands t) : Stands (t.wait .gameover) := by
  refine ⟨fun next hnext => ?_, fun hover => absurd ?_ hover, h.waitHu, h.robHu, h.checks,
    h.kept⟩
  · obtain rfl := Option.some.inj hnext
    rfl
  · rw [phase, if_pos ⟨rfl, rfl⟩]

theorem keyed_none : Keyed fun _ => none := by
  intro s a h
  cases h

theorem Stands.nextGame (h : Stands t) : Stands t.nextGame := by
  unfold Table.nextGame
  split
  · exact h.gameover
  · refine ⟨h.timed, fun _ => ⟨?_, ?_, ?_⟩, keyed_none, keyed_none, h.checks, h.kept⟩
    · simp [Table.winners, newGame]
    · simp [newGame]
    · simp [newGame]

theorem Playing.noteCheck (h : Playing t) {isOver : Bool}
    (hover : isOver = true ↔ t.active.length ≤ 1) : Playing (t.noteCheck isOver) := by
  refine ⟨⟨h.timed, fun _ => h.sure.of_standing rfl rfl, h.waitHu, h.robHu, fun c hc => ?_,
    h.kept⟩, h.play⟩
  rcases List.mem_append.mp hc with hc | hc
  · exact h.checks c hc
  · obtain rfl := List.mem_singleton.mp hc
    exact hover

theorem Playing.win (h : Playing t) {a : HuAct} (ha : InHand t a.p) : Playing (t.win a) := by
  have hexact := h.sure.win ha
  have hrest : ∀ u : Table, Exact u → u.waitHuActions = t.waitHuActions →
      u.qghManagerWaitHu = t.qghManagerWaitHu → u.toTrace = t.toTrace →
      u.toCtrl = t.toCtrl → Playing u := by
    intro u hu hw hq htr hct
    refine ⟨⟨?_, fun _ => hu, hw ▸ h.waitHu, hq ▸ h.robHu, ?_, ?_⟩, ?_⟩
    · rw [Timed, hct]
      exact h.timed
    · rw [ChecksRight, htr]
      exact h.checks
    · rw [htr]
      exact h.kept
    · rw [phase, hct]
      exact h.play
  unfold Table.win at hexact ⊢
  dsimp only at hexact ⊢
  split at hexact
  · exact hrest _ hexact rfl rfl rfl rfl
  · exact hrest _ hexact rfl rfl rfl rfl
  · exact hrest _ hexact rfl rfl rfl rfl

theorem Playing.dealGameBankrupt (h : Playing t) (hs : Sound t) :
    Playing t.dealGameBankrupt := by
  have hkept : (t.overwritten || t.brokeSeats.any fun s => (t.huOrder s).any (0 < ·)) =
      false := by
    rw [h.kept, Bool.false_or, List.any_eq_false]
    intro s hbroke
    rw [hs.not_winner hbroke]
    exact Bool.false_ne_true
  exact ⟨⟨h.timed, fun _ => h.sure.dealGameBankrupt hs, h.waitHu, h.robHu, h.checks, hkept⟩,
    h.play⟩

theorem Sound.of_view (h : Sound t) (hv : u.countView = t.countView)
    (ho : u.huOrder = t.huOrder) : Sound u := by
  have hbroke := brokeSeats_of_view hv
  simp only [countView, Prod.mk.injEq] at hv
  obtain ⟨hc, hon, -⟩ := hv
  intro hb s hs
  rw [hc] at hb hs
  have hup := h hb s hs
  rw [Upright, ho, hon, hbroke]
  exact hup

/-! ## Payments -/

abbrev StandSat (Q : Table → Prop) (p : M α) : Prop :=
  Sat Rerolled Fits Stands Stands (fun _ => Q) p

theorem fits_rand (h : Fits t) (ρ : Nat → Nat) : Fits { t with rand := ρ } := h

/-- While a seat is paid: it is known to be online if that matters afterwards. -/
def Paid (b : Prop) (seat : Nat) (t : Table) : Prop :=
  Playing t ∧ (b → t.cfg.breakExit = true → (t.onLinePlayer seat).isSome)

theorem steady_paid (b : Prop) (seat : Nat) : Steady Rerolled Fits Stands Stands (Paid b seat) :=
  .of_rand (fun h => h.1.toStands) (fun h => h.1.toStands)
    fun _ h => ⟨h.1.of_view rfl, h.2⟩

theorem stand_dealChangeScore (b : Prop) {race seat : Nat} (h : Paid b seat t) {total : ℚ}
    {others : List Nat} {type : PayType} {k : Int → Int → Table → M α} {Q : Table → Prop}
    (hk : ∀ m n u, Playing u → (b → Sound u) → StandSat Q (k m n u)) :
    StandSat Q (dealChangeScore F t race seat total others type k) := by
  refine sat_dealChangeScore (R := fun u => Playing u ∧ (b → Sound u)) (steady_paid b seat)
    (fun ρ hp => fits_rand hp ρ) (fun _ _ hu => ⟨hu.1.of_view rfl, hu.2⟩)
    (fun {u} hu hp => ⟨hu.1, fun hb hexit => ?_⟩) (fun m n u hu => hk m n u hu.1 hu.2) h
  rcases hp with hfits | ⟨hoff, -⟩
  · exact (hfits hu.1.play).1 hexit
  · have hon := hu.2 hb hexit
    rw [hoff] at hon
    cases hon

theorem stand_settle (h : Stands t) : StandSat Stands (settle F t) := by
  have henter := h.finish (s := .settlement) rfl
  have hover : ∀ {u : Table}, u.status = .settlement → u.phase = .ended :=
    fun hs => phase_of_status hs (by decide)
  have hD : Steady Rerolled Fits Stands Stands fun u => Stands u ∧ u.status = .settlement :=
    .of_rand (fun h => h.1) (fun h => h.1) fun _ h => ⟨h.1.of_view rfl, h.2⟩
  have hmark : ∀ {u : Table}, Stands u ∧ u.status = .settlement → Stands u.settleBankrupt :=
    fun hu => ⟨hu.1.timed, fun hno => absurd (hover hu.2) hno, hu.1.waitHu, hu.1.robHu,
      hu.1.checks, hu.1.kept⟩
  refine sat_settle hD (fun ρ hp => fits_rand hp ρ)
    (fun _ _ _ _ _ hu => ⟨hu.1.of_view rfl, hu.2⟩) henter
    ⟨henter.of_view rfl, rfl⟩ (fun {u} hu => ?_)
    fun {u} hu _ => Stands.nextGame ((hmark hu).of_view rfl)
  refine ⟨hmark hu, fun ρ hv _ => Stands.nextGame ?_⟩
  obtain ⟨ρ', rfl⟩ := hv
  exact (hmark hu).of_view rfl

/-! ## Turns and melds -/

theorem Exact.over_iff (h : Exact t) :
    t.cfg.seatCount ≤ t.huNum + t.bankruptNum + 1 ↔ t.active.length ≤ 1 := by
  have := h.tally
  omega

theorem stand_statusMoPai (h : Playing t) : StandSat Stands (statusMoPai F t) := by
  have hmo : Playing (t.enter .moPai) := h.enter rfl
  unfold statusMoPai
  dsimp only
  split
  · exact stand_settle hmo.toStands
  · have hcheck : Playing ((t.enter .moPai).noteCheck
        (decide (t.cfg.seatCount ≤ t.huNum + t.bankruptNum + 1))) := by
      refine hmo.noteCheck ?_
      rw [decide_eq_true_iff]
      exact h.sure.over_iff
    split
    · exact stand_settle hcheck.toStands
    · have hdraw : Playing ((t.enter .moPai).noteCheck
          (decide (t.cfg.seatCount ≤ t.huNum + t.bankruptNum + 1))).draw.2 := by
        refine hcheck.of_view ?_
        unfold draw popPai
        dsimp only
        split
        · rfl
        · split <;> rfl
      split
      · next u hu =>
        rw [← show _ = u from congrArg Prod.snd hu]
        exact stand_settle hdraw.toStands
      · next pai u hu =>
        have hdrawn : Playing u := by
          rw [← show _ = u from congrArg Prod.snd hu]
          exact hdraw
        exact (hdrawn.of_view (u := u.drawn pai) rfl).toStands

theorem stand_dealGuo (h : Playing t) : StandSat Stands (dealGuo F t) := by
  unfold dealGuo
  split
  · exact h.toStands
  · dsimp only
    split
    · exact h.toStands.of_view rfl
    · exact stand_statusMoPai (h.of_view rfl)

theorem stand_movePaiForPg (h : Stands t) {s pai : Nat} {type : PgType} {k : Table → M α}
    {Q : Table → Prop} (hk : ∀ n, StandSat Q (k (t.movePai s pai type n))) :
    StandSat Q (t.movePaiForPg s pai type k) := by
  unfold movePaiForPg
  split
  · exact h
  · exact hk _

theorem stand_dealPengPai (h : Playing t) {act : Act} :
    StandSat Stands (t.dealPengPai act) := by
  refine stand_movePaiForPg h.toStands fun n => ?_
  refine Playing.toStands ?_
  exact (h.enter (s := .cp) rfl).of_view rfl

theorem stand_recordGangScore (b : Prop) {race seat : Nat} (h : Paid b seat t)
    (hs : b → Sound t) {type : PgType} {pai : Nat} {others : List Nat} {k : Table → M α}
    {Q : Table → Prop} (hk : ∀ u, Playing u → (b → Sound u) → StandSat Q (k u)) :
    StandSat Q (t.recordGangScore F race seat type pai others k) := by
  unfold recordGangScore
  split
  · exact hk t h.1 hs
  · refine stand_dealChangeScore b h fun _ _ u hu hsu => hk _ ?_ fun hb => ?_
    · exact hu.of_view rfl
    · refine (hsu hb).of_view ?_ rfl
      simp only [countView, Prod.mk.injEq, true_and]
      funext s
      by_cases hss : s = seat
      · subst hss
        simp
      · simp [hss]

theorem stand_gangDone (h : Playing t) (hs : Sound t) {act : Act} {type : PgType} :
    StandSat Stands (gangDone F t act type) := by
  refine stand_movePaiForPg h.toStands fun n => stand_statusMoPai ?_
  have hmoved : Playing { (t.movePai act.p act.pai type n).addAct act with
      pPermit := fun _ => none } := h.of_view rfl
  have hsound : Sound { (t.movePai act.p act.pai type n).addAct act with
      pPermit := fun _ => none } := hs.of_view rfl rfl
  exact (hmoved.dealGameBankrupt hsound).of_view rfl

theorem stand_dealGang (h : Playing t) (hs : Sound t) {race : Nat} {act : Act}
    (hon : t.cfg.breakExit = true → (t.onLinePlayer act.p).isSome) {type : PgType} :
    StandSat Stands (dealGang F t race act type) := by
  have hpaid : Paid True act.p t := ⟨h, fun _ => hon⟩
  have hdone : ∀ u, Playing u → (True → Sound u) → StandSat Stands (gangDone F u act type) :=
    fun u hu hsu => stand_gangDone hu (hsu trivial)
  unfold dealGang
  split
  · split
    · exact h.toStands
    · exact stand_recordGangScore True hpaid (fun _ => hs) hdone
  · exact stand_recordGangScore True hpaid (fun _ => hs) hdone

theorem stand_dealWGangFinish (h : Playing t) {race : Nat} {act : Act} :
    StandSat Stands (dealWGangFinish F t race act) := by
  have hmo : ∀ u, Playing u → StandSat Stands (statusMoPai F { u with curP := act.p }) :=
    fun u hu => stand_statusMoPai (hu.of_view rfl)
  unfold dealWGangFinish
  dsimp only
  split
  · exact hmo t h
  · exact stand_recordGangScore False ⟨h, False.elim⟩ False.elim fun u hu _ => hmo u hu

theorem stand_dealWGang (h : Playing t) {race : Nat} {act : Act} :
    StandSat Stands (dealWGang F t race act) := by
  refine stand_movePaiForPg h.toStands fun n => ?_
  dsimp only
  split
  · refine stand_dealWGangFinish ?_
    exact h.of_view rfl
  · refine Playing.toStands ?_
    exact (h.enter (s := .qiangGangHu) rfl).of_view rfl

/-! ## Wins -/

theorem inHand_nextOperSeat {s x : Nat} (h : t.nextOperSeat s = some x) : InHand t x := by
  have hnone : (t.huOrder x).isNone := List.find?_some (p := fun x => (t.huOrder x).isNone) h
  exact ⟨mem_seatsAfter.mp (List.mem_of_find?_eq_some h), Option.isNone_iff_eq_none.mp hnone⟩

theorem Sound.setHu (h : Sound t) (a : HuAct) : Sound (t.setHu a) := by
  refine h.of_view ?_ rfl
  simp only [countView, Table.setHu, Prod.mk.injEq, true_and]
  funext s
  by_cases hs : s = a.p
  · subst hs
    simp
  · simp [hs]

theorem stand_dealHuLoop {race : Nat} {actions : Nat → Option HuAct}
    (hact : ∀ s a, actions s = some a → a.p = s) {k : Table → M Unit}
    (hk : ∀ u, Playing u → Sound u → StandSat Stands (k u)) (n : Nat) (s : Option Nat)
    (h : Playing t) (hs : Sound t) (hseat : ∀ x ∈ s, InHand t x) :
    StandSat Stands (dealHuLoop F race actions k n s t) := by
  induction n generalizing s t with
  | zero => exact hk t h hs
  | succ n ih =>
      cases s with
      | none => exact h.toStands
      | some s =>
          unfold dealHuLoop
          split
          · exact ih _ h hs fun x hx => inHand_nextOperSeat hx
          · next a ha =>
            have hp : InHand t a.p := by
              rw [hact s a ha]
              exact hseat s rfl
            have hon : t.cfg.breakExit = true → (t.onLinePlayer a.p).isSome := by
              intro hb
              have hup := hs hb a.p hp.1
              rw [Upright, hp.2] at hup
              exact hup
            have hpaid : Paid True a.p (t.win a) := by
              refine ⟨h.win hp, fun _ => ?_⟩
              unfold Table.win
              dsimp only
              split <;> exact hon
            refine stand_dealChangeScore True hpaid fun _ _ u hu hsu => ih _ ?_ ?_ ?_
            · exact hu.of_view rfl
            · exact ((hsu trivial).setHu a).of_view rfl rfl
            · exact fun x hx => inHand_nextOperSeat hx

theorem stand_dealHu (h : Playing t) (hs : Sound t) {race : Nat}
    {actions : Nat → Option HuAct}
    (hact : ∀ s a, actions s = some a →
      a.p = s ∧ (a.info.dianpaoP = none → InHand t s)) :
    StandSat Stands (dealHu F t race actions) := by
  unfold dealHu
  split
  · exact h.toStands
  · next a ha =>
    obtain ⟨s, -, hsome⟩ := List.exists_of_findSome?_eq_some ha
    refine stand_dealHuLoop (fun s a hsa => (hact s a hsa).1) (fun u hu hsu => ?_) _ _ h hs
      fun x hx => ?_
    · have hbank := hu.dealGameBankrupt hsu
      have hcheck : Playing (u.dealGameBankrupt.noteCheck
          (decide (u.cfg.seatCount ≤ u.huNum + u.brokeSeats.length + 1))) := by
        refine hbank.noteCheck ?_
        rw [decide_eq_true_iff, ← hu.sure.brokeSeats_length hsu]
        exact hbank.sure.over_iff
      dsimp only
      split
      · exact stand_settle hcheck.toStands
      · exact stand_dealGuo hcheck
    · cases hd : a.info.dianpaoP with
      | some p =>
          rw [hd] at hx
          exact inHand_nextOperSeat hx
      | none =>
          rw [hd] at hx
          obtain rfl := Option.some.inj hx
          obtain ⟨hp, hself⟩ := hact s a hsome
          rw [hp]
          exact hself hd

theorem stand_dealHu_noted (h : Playing t) (hs : Sound t) {race : Nat}
    {actions : Nat → Option HuAct} (hkeyed : Keyed actions) :
    StandSat Stands (dealHu F t race actions) := by
  refine stand_dealHu h hs fun s a ha => ?_
  obtain ⟨hp, hd⟩ := hkeyed s a ha
  refine ⟨hp, fun hnone => ?_⟩
  rw [hnone] at hd
  cases hd

/-! ## Claims -/

theorem Keyed.update {f : Nat → Option HuAct} (h : Keyed f) {s : Nat} {a : HuAct}
    (hp : a.p = s) (hd : a.info.dianpaoP.isSome) :
    Keyed (Function.update f s (some a)) := by
  intro x b hb
  by_cases hx : x = s
  · subst hx
    rw [Function.update_self] at hb
    obtain rfl := Option.some.inj hb
    exact ⟨hp, hd⟩
  · rw [Function.update_of_ne hx] at hb
    exact h x b hb

theorem stand_qiangGangHuManager (h : Playing t) (hs : Sound t) {race p : Nat}
    {hu : Option HuAct} (hhu : ∀ a ∈ hu, a.p = p ∧ a.info.dianpaoP.isSome) :
    StandSat Stands (t.qiangGangHuManager F race p hu) := by
  have hnote : Playing (t.noteRob p hu) := by
    refine ⟨⟨h.timed, fun _ => h.sure.of_standing rfl rfl, h.waitHu, ?_, h.checks, h.kept⟩,
      h.play⟩
    cases hu with
    | none => exact h.robHu
    | some a => exact h.robHu.update (hhu a rfl).1 (hhu a rfl).2
  have hsound : Sound (t.noteRob p hu) := hs.of_view rfl rfl
  unfold qiangGangHuManager
  dsimp only
  split
  · split
    · exact hnote.toStands
    · next act _ =>
      refine Prog.Sat.bind (R := fun _ => Stands) ?_ fun _ u hu =>
        ⟨hu.timed, fun hno => (hu.exact hno).of_standing rfl rfl, hu.waitHu, keyed_none,
          hu.checks, hu.kept⟩
      split
      · refine stand_dealHu_noted ?_ ?_ hnote.robHu
        · exact hnote.of_view rfl
        · exact hsound.of_view rfl rfl
      · exact stand_dealWGangFinish hnote
  · exact hnote.toStands

def Present (t : Table) : Prop :=
  t.cfg.breakExit = true →
    ∀ act ∈ t.waitPgAction, act.type ≠ .pg .peng → (t.onLinePlayer act.p).isSome

theorem stand_pengGangHuManager (h : Playing t) (hs : Sound t) {race : Nat} {c : Claim}
    (hc : ∀ a, c = .hu a → a.info.dianpaoP.isSome) (hpg : Present (t.noteClaim c)) :
    StandSat Stands (t.pengGangHuManager F race c) := by
  have hnote : Playing (t.noteClaim c) := by
    cases c with
    | hu a =>
        exact ⟨⟨h.timed, fun _ => h.sure.of_standing rfl rfl, h.waitHu.update rfl (hc a rfl),
          h.robHu, h.checks, h.kept⟩, h.play⟩
    | pg act => exact h.of_view rfl
    | guo p => exact h.of_view rfl
  have hsound : Sound (t.noteClaim c) := by
    cases c with
    | hu a => exact hs.of_view rfl rfl
    | pg act => exact hs.of_view rfl rfl
    | guo p => exact hs.of_view rfl rfl
  unfold pengGangHuManager
  dsimp only
  split
  · refine Prog.Sat.bind (R := fun _ => Stands) ?_ fun _ u hu =>
      ⟨hu.timed, fun hno => (hu.exact hno).of_standing rfl rfl, keyed_none, hu.robHu,
        hu.checks, hu.kept⟩
    split
    · exact stand_dealHu_noted hnote hsound hnote.waitHu
    · split
      · next act hact =>
        split
        · exact stand_dealPengPai hnote
        · next hpeng =>
          split
          · exact stand_dealGang hnote hsound fun hb => hpg hb act hact hpeng
          · exact hnote.toStands
      · exact stand_dealGuo hnote
  · exact hnote.toStands

/-! ## Commands -/

/-- The records are sound when claims and wins are dealt with, a seat that wins is
still in the hand, and one that makes a kong has not left. -/
def StandOk (t : Table) (ev : Event) : Prop :=
  OnTime t ev ∧
    match ev with
    | .guoPai _ => Fits t
    | .pengPai _ _ => Fits t
    | .gangPai seat _ _ =>
        Fits t ∧ (t.cfg.breakExit = true → (t.onLinePlayer seat).isSome)
    | .huPai seat => Fits t ∧ InHand t seat
    | _ => True

theorem Stands.playing (h : Stands t) {l : List Status} {seat : Nat} (hmay : t.mayDo l seat)
    (hl : ∀ s ∈ l, s.phase = .play ∧ s ≠ .wait) : Playing t := by
  simp only [mayDo, Bool.decide_and, Bool.and_eq_true, decide_eq_true_eq] at hmay
  obtain ⟨hplay, hne⟩ := hl _ hmay.1
  exact ⟨h, (phase_of_status rfl hne).trans hplay⟩

theorem stand_chuPai (h : Stands t) {seat pai : Nat} :
    StandSat Stands (t.chuPai F seat pai) := by
  unfold chuPai
  split
  · next hmay =>
    have hplay := h.playing hmay (by decide)
    dsimp only
    split
    · exact h.of_view rfl
    · next n _ =>
      refine Prog.Sat.bind (R := fun _ => Stands) ?_ fun _ u hu => hu
      have hfinish : Playing (((t.setDone seat false).discard seat pai n).enter .cpFinish) :=
        (hplay.enter (s := .cpFinish) rfl).of_view rfl
      have hoffer : ∀ cs, Playing
          ((((t.setDone seat false).discard seat pai n).enter .cpFinish).offer cs) := by
        intro cs
        have hstatus := hfinish.enter (s := if cs = [] then .cpFinish else .pengGangHu)
          (by split <;> rfl)
        exact hstatus.of_view rfl
      unfold dealChuPai
      dsimp only
      split
      · exact stand_dealGuo ((hoffer _).of_view rfl)
      · exact ((hoffer _).of_view (u := Table.setZhuanYu _ seat) rfl).toStands
  · exact h

theorem Fits.present (h : Fits t) (hplay : Playing t) : Present t :=
  fun hb act hact _ => (h hplay.play).2 hb act hact

theorem stand_guoPai (h : Stands t) {seat : Nat} (hfits : Fits t) :
    StandSat Stands (t.guoPai F seat) := by
  unfold guoPai
  split
  · next hmay =>
    have hplay := h.playing hmay (by decide)
    have hs := (hfits hplay.play).1
    dsimp only
    split
    · exact h.of_view rfl
    · refine Prog.Sat.bind (R := fun _ => Stands) ?_ fun _ u hu => hu
      split
      · refine stand_qiangGangHuManager ?_ ?_ (by simp)
        · exact hplay.of_view rfl
        · exact hs.of_view rfl rfl
      · refine stand_pengGangHuManager ?_ ?_ (by simp) ?_
        · exact hplay.of_view rfl
        · exact hs.of_view rfl rfl
        · exact hfits.present hplay
  · exact h

theorem stand_pengPai (h : Stands t) {seat pai : Nat} (hfits : Fits t) :
    StandSat Stands (t.pengPai F seat pai) := by
  unfold pengPai
  split
  · next hmay =>
    have hplay := h.playing hmay (by decide)
    have hs := (hfits hplay.play).1
    refine Prog.Sat.bind (R := fun _ => Stands) ?_ fun _ u hu => hu
    refine stand_pengGangHuManager ?_ ?_ (by simp) fun _ act hact hne => ?_
    · exact hplay.of_view rfl
    · exact hs.of_view rfl rfl
    · obtain rfl := Option.some.inj hact
      exact absurd rfl hne
  · exact h

theorem stand_gangPai (h : Stands t) {seat : Nat} {type : GangArg} {pai : Nat}
    (hfits : Fits t) (hon : t.cfg.breakExit = true → (t.onLinePlayer seat).isSome) :
    StandSat Stands (t.gangPai F seat type pai) := by
  unfold gangPai
  split
  · next hmay =>
    have hplay := h.playing hmay (by decide)
    have hdone : Playing { t.setDone seat false with
        pIgnoreHu := Function.update t.pIgnoreHu seat none } := hplay.of_view rfl
    have hs : Sound { t.setDone seat false with
        pIgnoreHu := Function.update t.pIgnoreHu seat none } :=
      (hfits hplay.play).1.of_view rfl rfl
    refine Prog.Sat.bind (R := fun _ => Stands) ?_ fun _ u hu => hu.of_view rfl
    cases type with
    | ag =>
        refine stand_dealGang hdone hs ?_
        exact hon
    | zg =>
        refine stand_pengGangHuManager hdone hs (by simp) fun hb act hact _ => ?_
        obtain rfl := Option.some.inj hact
        exact hon hb
    | wg => exact stand_dealWGang hdone
    | jwg => exact stand_dealWGang hdone
  · exact h

theorem stand_zhuanYu (h : Stands t) {race seat : Nat} {a : HuAct} {acts : List Act} :
    StandSat Stands (t.zhuanYu F race seat a acts) := by
  have hD : Steady Rerolled Fits Stands Stands Stands :=
    .of_rand (fun h => h) (fun h => h) fun _ h => h.of_view rfl
  unfold zhuanYu
  split
  · exact h
  · split
    · exact h
    · split
      · refine sat_dealChangeScore hD (fun ρ hp => fits_rand hp ρ)
          (fun _ _ hu => hu.of_view rfl) (fun hu _ => hu) (fun _ _ u hu => hu) ?_
        exact h.of_view rfl
      · exact h

theorem dianpaoP_isSome {hu : HuInfo} (h : huTypeOf hu = .pao ∨ huTypeOf hu = .qghu) :
    hu.dianpaoP.isSome := by
  cases hd : hu.dianpaoP with
  | some p => rfl
  | none =>
      unfold huTypeOf at h
      rw [hd] at h
      cases ht : hu.tianHu <;> simp [ht] at h

theorem stand_huPai (h : Stands t) {seat : Nat} (hfits : Fits t) (hseat : InHand t seat) :
    StandSat Stands (t.huPai F seat) := by
  unfold huPai
  split
  · next hmay =>
    have hplay := h.playing hmay (by decide)
    have hdone : Playing (t.setDone seat false) := hplay.of_view rfl
    have hs : Sound (t.setDone seat false) := (hfits hplay.play).1.of_view rfl rfl
    dsimp only
    split
    · exact hdone.toStands
    · next hu hhu =>
      have hself : ∀ type : HuType, StandSat Stands (dealHu F (t.setDone seat false)
          t.curRace (Function.update (fun _ => none) seat (some ⟨seat, type, hu⟩))) := by
        intro type
        refine stand_dealHu hdone hs fun s a ha => ?_
        by_cases hss : s = seat
        · subst hss
          rw [Function.update_self] at ha
          obtain rfl := Option.some.inj ha
          exact ⟨rfl, fun _ => hseat⟩
        · rw [Function.update_of_ne hss] at ha
          cases ha
      refine Prog.Sat.bind (R := fun _ => Stands) ?_ fun _ u hu => stand_zhuanYu hu
      cases hty : huTypeOf hu with
      | qghu =>
          refine stand_qiangGangHuManager ?_ ?_ fun a ha => ?_
          · exact hdone.of_view rfl
          · exact hs.of_view rfl rfl
          · obtain rfl := Option.some.inj ha
            exact ⟨rfl, dianpaoP_isSome (.inr hty)⟩
      | pao =>
          refine stand_pengGangHuManager hdone hs (fun a ha => ?_) ?_
          · obtain rfl := Claim.hu.inj ha
            exact dianpaoP_isSome (.inl hty)
          · exact hfits.present hplay
      | zimo => exact hself .zimo
      | tianHu => exact hself .tianHu
  · exact h

/-! ## Runs -/

theorem stands_newTable (cfg : Config) (ρ : Nat → Nat) : Stands (newTable cfg ρ) := by
  refine ⟨?_, fun _ => ⟨?_, ?_, ?_⟩, keyed_none, keyed_none, ?_, rfl⟩ <;>
    simp [newTable, newGame, Timed, winners, ChecksRight]

theorem Stands.calm (h : Stands t) (hu : Calm t u) : Stands u := by
  have hcore := hu.core
  simp only [core, Prod.mk.injEq] at hcore
  obtain ⟨hc, hs, -, -, htr, -, hw, hq, -⟩ := hcore
  refine ⟨hu.timed, fun hover => ?_, hw ▸ h.waitHu, hq ▸ h.robHu, ?_, ?_⟩
  · have hbefore : t.phase ≠ .ended := by
      rcases hu.phase with hp | ⟨hp, -⟩
      · rwa [← hp]
      · simp [hp]
    exact (h.exact hbefore).of_standing hc hs
  · rw [ChecksRight, htr]
    exact h.checks
  · rw [htr]
    exact h.kept

theorem upkeep_stands (F : NumFormat) : Upkeep F Rerolled Fits Stands Stands StandOk where
  timed h := h.timed
  waits h := h
  wakes h hu _ := by
    obtain ⟨ρ, rfl⟩ := hu
    exact h.of_view rfl
  calm h := h.calm
  ready h hok := sat_of_calmly Stands.calm h (calmly_readyCmd h.timed _ hok.1)
  finish h _ hs := h.finish hs
  gone h := h.of_view rfl
  settle h _ := stand_settle (h.of_view rfl)
  broken h := h.of_view rfl
  force {t} h _ := by
    have hbreak : Stands { t with isBreakGame := true } := h.of_view rfl
    refine sat_saveRaceOverLog hbreak (fun _ => Stands.gameover (hbreak.of_view rfl))
      fun ρ hu _ => ?_
    obtain ⟨ρ', rfl⟩ := hu
    exact Stands.gameover (hbreak.of_view rfl)
  plays {t ev} h hok hplays := by
    cases ev with
    | chuPai seat pai => exact stand_chuPai h
    | guoPai seat => exact stand_guoPai h hok.2
    | pengPai seat pai => exact stand_pengPai h hok.2
    | gangPai seat type pai => exact stand_gangPai h hok.2.1 hok.2.2
    | huPai seat => exact stand_huPai h hok.2.1 hok.2.2
    | _ => cases hplays

end Standing

/-- The seats in the hand, the winners and the bankrupt seats make up the table. -/
def Accounted (t : Table) : Prop :=
  t.active.length + t.huNum + t.bankruptNum = t.cfg.seatCount

/-- Until the settlement all seats are accounted for; hands have ended exactly when
at most one seat was left, and no winner has lost its place. -/
theorem Reachable.seats_accounted {F : NumFormat} {cfg : Config} {ρ : Nat → Nat}
    {w : MjWorld} (h : Reachable F cfg ρ (Orderly StandOk Fits) w) :
    (w.state.phase ≠ .ended → Accounted w.state) ∧ ChecksRight w.state ∧
      w.state.overwritten = false := by
  have hstands := (upkeep_stands F).of_orderly (stands_newTable cfg ρ) h
  exact ⟨fun hover => (hstands.exact hover).tally, hstands.checks, hstands.kept⟩

/-! ## A winner without money -/

instance decidableSound (t : Table) : Decidable (Sound t) := by
  have hup : ∀ s, Decidable (Upright t s) := by
    intro s
    unfold Upright
    split <;> infer_instance
  unfold Sound
  infer_instance

instance decidableFits : DecidablePred Fits := fun t => by
  unfold Fits
  infer_instance

instance decidableStandOk (t : Table) : ∀ ev, Decidable (StandOk t ev) := by
  rintro (_ | _) <;> unfold StandOk <;> infer_instance

instance decidableAccounted (t : Table) : Decidable (Accounted t) := by
  unfold Accounted
  infer_instance

def richRun : List (Input (Event × (Nat → Nat)) Answer) :=
  breakKong (fun _ => 100) ++
  [cmd (.huPai 1), ans (-2), ans (-2), ans (-2), ans 6]

theorem richRun_orderly :
    Allowed (World.step (Table.step .exact)) (Orderly StandOk Fits)
        ⟨newTable breakConfig (rig .xzdd breakTiles), []⟩ richRun ∧
      (after breakConfig (rig .xzdd breakTiles) richRun).state.phase = .play ∧
      (after breakConfig (rig .xzdd breakTiles) richRun).state.huNum = 1 := by
  rw [after, newTable_rig _ .xzdd breakTiles rfl (by decide +kernel)]
  decide +kernel

theorem seats_accounted_richRun :
    (after breakConfig (rig .xzdd breakTiles) richRun).state.huNum = 1 ∧
      Accounted (after breakConfig (rig .xzdd breakTiles) richRun).state := by
  obtain ⟨hallowed, hplay, hnum⟩ := richRun_orderly
  refine ⟨hnum, (Reachable.seats_accounted (reach_run hallowed)).1 fun hover => ?_⟩
  exact absurd (hplay.symm.trans hover) (by decide)

/-- The first seat gets a pong from the second one and later draws the fourth tile;
the third seat then discards what the second one waits for. -/
def poorTiles : List Nat :=
  dealOrder
    [[11, 11, 12, 13, 14, 15, 16, 17, 21, 22, 23, 24, 25],
     [12, 13, 14, 15, 16, 17, 21, 22, 23, 27, 28, 29, 11],
     [12, 14, 16, 19, 21, 23, 26, 28, 15, 17, 13, 22, 24],
     [13, 15, 17, 19, 22, 24, 27, 29, 16, 12, 14, 21, 26]]
    [29, 18, 27, 28, 29, 11, 19, 27, 18]

def poorRun : List (Input (Event × (Nat → Nat)) Answer) :=
  opening (fun s => if s = 2 ∨ s = 3 then 1 else 100) (fun _ => 3) ++
  [cmd (.chuPai 1 29), cmd (.chuPai 2 11), cmd (.pengPai 1 11), cmd (.chuPai 1 25),
    cmd (.chuPai 2 27), cmd (.chuPai 3 28), cmd (.chuPai 4 29), cmd (.gangPai 1 .wg 11),
    ans (-1), ans (-1), ans (-1), ans 3, cmd (.chuPai 1 19), cmd (.chuPai 2 27),
    cmd (.chuPai 3 18), cmd (.huPai 2), ans 0, ans 0]

theorem poorRun_allowed :
    Allowed (World.step (Table.step .exact)) (Orderly (fun _ _ => True) fun _ => True)
        ⟨newTable breakConfig (rig .xzdd poorTiles), []⟩ poorRun ∧
      ¬ Accounted (after breakConfig (rig .xzdd poorTiles) poorRun).state ∧
      (true, 2) ∈ (after breakConfig (rig .xzdd poorTiles) poorRun).state.checks ∧
      (after breakConfig (rig .xzdd poorTiles) poorRun).state.overwritten = true := by
  rw [after, newTable_rig _ .xzdd poorTiles rfl (by decide +kernel)]
  decide +kernel

/-- The winner without money is counted twice: the hand ends although two seats are
left, and the winner loses its place. -/
theorem poor_winner_overwritten :
    Reachable .exact breakConfig (rig .xzdd poorTiles)
        (Orderly (fun _ _ => True) fun _ => True)
        (after breakConfig (rig .xzdd poorTiles) poorRun) ∧
      ¬ Accounted (after breakConfig (rig .xzdd poorTiles) poorRun).state ∧
      ¬ ChecksRight (after breakConfig (rig .xzdd poorTiles) poorRun).state ∧
      (after breakConfig (rig .xzdd poorTiles) poorRun).state.overwritten = true := by
  obtain ⟨hallowed, hcount, hcheck, hover⟩ := poorRun_allowed
  refine ⟨reach_run hallowed, hcount, fun hright => ?_, hover⟩
  exact absurd ((hright _ hcheck).mp rfl) (by decide)

end Table

end JyQipai.Mj
