import JyQipai.Gobang.Table
import JyQipai.Lib.Alone

/-!
# A game is settled once

While nobody gives up and no time runs out once a game is decided, the table settles each game
once, for the winner who was decided first, and the awards of both seats add up to zero.
-/

namespace JyQipai.Gobang

open Lib

def Settled.ZeroSum (x : Settled) : Prop :=
  ∃ a b, x.award 1 = some (.number a) ∧ x.award 2 = some (.number b) ∧ a + b = 0

/-- Every game is settled once, for the one who was decided first, and a game that is decided is
not forgotten. -/
structure SettledOnce (w : World Table Call Answer (Option Int)) : Prop where
  once : (w.state.runs.map Decision.race).Nodup
  first : ∀ x ∈ w.state.runs, w.state.decisions.find? (fun y => y.race = x.race) = some x
  settled : ∀ x ∈ w.state.settled, x.decision ∈ w.state.runs ∧ x.ZeroSum
  every : ∀ race, 1 ≤ race →
    race < w.state.curRace ∨ w.state.returned = true ∧ race = w.state.curRace →
      ∃ x ∈ w.state.settled, x.decision.race = race
  pending : ∀ x ∈ w.state.decisions, (∃ y ∈ w.state.settled, y.decision = x) ∨ w.waiting ≠ [] ∨
    w.state.status = .wait ∧ w.state.nextStatus = some .settlement ∧ w.state.time ≠ none

def Pays (score : Int) : Answer → Prop
  | .number n => if score < 0 then score ≤ n ∧ n ≤ 0 else n = score
  | .other => False

def Answered : Call → Answer → Prop
  | .modifyScore _ score, a => Pays score a
  | .backMoney _ score, a => Pays score a ∨ a = .other
  | .addRaceLog, _ => True
  | .tableFinish, _ => True

namespace Table

def Going (t : Table) : Prop :=
  t.status = .xq ∨ t.status = .wait ∧ (t.nextStatus = some .xhz ∨ t.nextStatus = some .xq)

instance : DecidablePred Going := fun t => by
  unfold Going
  infer_instance

/-- A game is given up, and its time runs out, only while it is going on; before the first move
of a table is permitted a time that runs out is refused. -/
def InTime (t : Table) : Event → Prop
  | .xiaqiRenshu _ => t.returned = true ∨ t.Going
  | .xiaqiTimeout seat =>
      t.returned = true ∨ t.Going ∨ t.pRaceTimes seat = none ∨ t.curMaxOperTime = none
  | _ => True

instance (t : Table) : DecidablePred t.InTime := fun e => by
  cases e <;> unfold InTime <;> infer_instance

/-! ## Games that are settled -/

/-- The first `k` games are settled; then `pending` is decided, and settled now where it is
`running`. -/
structure Ledger (t : Table) (k : Nat) (pending running : List Decision) : Prop where
  races : t.settled.map (fun x => x.decision.race) = List.range' 1 k
  runs : t.runs = t.settled.map Settled.decision ++ running
  decisions : t.decisions = t.settled.map Settled.decision ++ pending
  zero : ∀ x ∈ t.settled, x.ZeroSum

structure Sane (t : Table) : Prop where
  raceTimes : ∀ seat, t.pRaceTimes seat ≠ none → seat = 1 ∨ seat = 2
  returned : t.returned = false
  stake : 0 ≤ t.config.initStake * t.config.initRate

def Full (t : Table) : Prop := ∀ seat, t.ready seat ≠ some 0

structure Won (t : Table) (win : Nat) : Prop where
  winSeat : t.settlementInfo.winSeat = some win
  seat : win = 0 ∨ win = 1 ∨ win = 2
  draw : win = 0 → t.settlementInfo.type = some .qiPanXiaMan

structure Playing (t : Table) (pending running : List Decision) : Prop where
  sane : t.Sane
  full : t.Full
  log : t.log = true
  race : 1 ≤ t.curRace
  ledger : t.Ledger (t.curRace - 1) pending running

structure Waiting (t : Table) : Prop where
  sane : t.Sane
  time : t.time = none
  race : 1 ≤ t.curRace
  ledger : t.Ledger (t.curRace - 1) [] []
  seats : ∀ seat, t.ready seat = some 0 → seat = 1 ∨ seat = 2
  count : t.pReady = ([1, 2] : List Nat).countP fun seat => t.ready seat ≠ some 0

inductive Calm (t : Table) : Prop
  | waitP (hstatus : t.status = .waitP) (h : t.Waiting)
  | xq (hstatus : t.status = .xq) (htime : t.time = none) (h : t.Playing [] [])
  | going (hstatus : t.status = .wait)
      (hnext : t.nextStatus = some .xhz ∨ t.nextStatus = some .xq) (h : t.Playing [] [])
  | won (hstatus : t.status = .wait) (hnext : t.nextStatus = some .settlement)
      (htime : t.time ≠ none) (win : Nat) (hwon : t.Won win)
      (h : t.Playing [⟨t.curRace, some win⟩] [])
  | settled (hstatus : t.status = .wait) (hnext : t.nextStatus = some .nextGame)
      (hsane : t.Sane) (hfull : t.Full) (h : t.Ledger t.curRace [] [])
  | returned (hreturned : t.returned = true) (h : t.Ledger t.curRace [] [])

structure Busy (t : Table) : Prop where
  status : t.status = .settlement ∨ t.status = .gameover
  time : t.time = none
  full : t.Full
  returned : t.returned = false
  ledger : (∃ x, x.race = t.curRace ∧ 1 ≤ t.curRace ∧ t.Ledger (t.curRace - 1) [x] [x]) ∨
    t.Ledger t.curRace [] []

structure Settling (t : Table) (win : Nat) : Prop where
  status : t.status = .settlement
  time : t.time = none
  won : t.Won win
  playing : t.Playing [⟨t.curRace, some win⟩] [⟨t.curRace, some win⟩]

variable {t u : Table} {win : Nat} {ss : Int}

theorem Settling.busy (h : t.Settling win) : t.Busy :=
  ⟨.inl h.status, h.time, h.playing.full, h.playing.sane.returned,
    .inl ⟨_, rfl, h.playing.race, h.playing.ledger⟩⟩

theorem Settling.setInfo (h : t.Settling win) {info : SettlementInfo}
    (hwin : info.winSeat = t.settlementInfo.winSeat) (htype : info.type = t.settlementInfo.type) :
    (t.setInfo info).Settling win := by
  obtain ⟨hsane, hfull, hlog, hrace, hledger⟩ := h.playing
  exact ⟨h.status, h.time,
    ⟨hwin.trans h.won.winSeat, h.won.seat, fun h0 => htype.trans (h.won.draw h0)⟩,
    ⟨hsane.raceTimes, hsane.returned, hsane.stake⟩, hfull, hlog, hrace,
    hledger.races, hledger.runs, hledger.decisions, hledger.zero⟩

/-! ## Settlement -/

abbrev Settles {α : Type} (Q : α → Table → Prop) (p : Prog Table Call Answer α) : Prop :=
  p.Sat Answered Eq (fun _ => True) Busy (fun _ => False) Q

theorem pays_number {score n : Int} :
    Pays score (.number n) ↔ if score < 0 then score ≤ n ∧ n ≤ 0 else n = score := Iff.rfl

theorem pays_self (score : Int) : Pays score (.number score) := by
  rw [pays_number]
  split <;> omega

theorem settles_changeOnePlayerScore (ht : t.Busy) (seat : Option Nat) (score : Int) :
    Settles (fun a u => u = t ∧ Pays score a) (changeOnePlayerScore seat score t) := by
  unfold changeOnePlayerScore
  cases seat.bind t.pSeatNumber with
  | some playerId => exact ⟨ht, fun a u ha hu _ => ⟨hu.symm, ha⟩⟩
  | none =>
      cases t.config.backMoneyCmd with
      | none => exact ⟨rfl, pays_self score⟩
      | some cmd =>
          refine ⟨ht, fun a u ha hu _ => ?_⟩
          subst hu
          cases a with
          | number n => exact ⟨rfl, ha.resolve_right nofun⟩
          | other => exact ⟨rfl, pays_self score⟩

structure Paid (t : Table) (win : Nat) (ss : Int) (paid : List (Nat × Int)) : Prop where
  settling : t.Settling win
  score : t.settlementInfo.score ≠ none
  award : ∃ award, t.settlementInfo.award = some award ∧
    ∀ x ∈ paid, award x.1 = some (.number x.2)
  part : ∀ x ∈ paid, -ss ≤ x.2 ∧ x.2 ≤ 0

theorem Paid.cons {paid : List (Nat × Int)} {award : Nat → Option Answer} {score : Nat → Option Int}
    {i : Nat} {n : Int} (ht : t.Paid win ss paid) (haward : t.settlementInfo.award = some award)
    (hscore : t.settlementInfo.score = some score) (hnew : i ∉ paid.map Prod.fst)
    (hn : -ss ≤ n ∧ n ≤ 0) :
    (t.setInfo { t.settlementInfo with
      award := some (Function.update award i (some (.number n))) }).Paid win ss
        (paid ++ [(i, n)]) := by
  obtain ⟨award', haward', hpaid⟩ := ht.award
  obtain rfl := Option.some.inj (haward'.symm.trans haward)
  refine ⟨ht.settling.setInfo rfl rfl, ?_, ⟨_, rfl, fun x hx => ?_⟩, fun x hx => ?_⟩
  · change t.settlementInfo.score ≠ none
    rw [hscore]
    exact nofun
  · rcases List.mem_append.mp hx with hx | hx
    · have hne : x.1 ≠ i := fun h => hnew (h ▸ List.mem_map_of_mem hx)
      rw [Function.update_of_ne hne]
      exact hpaid x hx
    · obtain rfl := List.mem_singleton.mp hx
      exact Function.update_self ..
  · rcases List.mem_append.mp hx with hx | hx
    · exact ht.part x hx
    · obtain rfl := List.mem_singleton.mp hx
      exact hn

theorem settles_chargeLosers (hss : 0 ≤ ss) (is : List Nat) (paid : List (Nat × Int))
    (lose : Nat → Int) (sum : Int) (hsum : sum = (paid.map Prod.snd).sum)
    (hnodup : (paid.map Prod.fst ++ is).Nodup) (ht : t.Paid win ss paid) :
    Settles (fun r u => ∃ paid', u.Paid win ss paid' ∧ r.2 = (paid'.map Prod.snd).sum ∧
        paid'.map Prod.fst = paid.map Prod.fst ++ is.filter fun i => i ≠ win)
      (chargeLosers ss is lose sum t) := by
  induction is generalizing t paid lose sum with
  | nil => exact ⟨paid, ht, hsum, by simp⟩
  | cons i is ih =>
      have hwin := ht.settling.won.winSeat
      unfold chargeLosers
      by_cases hi : i = win
      · rw [if_pos (hwin.trans (congrArg some hi.symm))]
        have hrest : (paid.map Prod.fst ++ is).Nodup :=
          hnodup.sublist (List.Sublist.append_left (List.sublist_cons_self i is) _)
        refine (ih paid lose sum hsum hrest ht).mono (fun _ h => h) fun r u h => ?_
        rwa [List.filter_cons_of_neg (by simp [hi])]
      · rw [if_neg fun h => hi (Option.some.inj (h.symm.trans hwin))]
        obtain ⟨score, hscore⟩ := Option.ne_none_iff_exists'.mp ht.score
        obtain ⟨award, haward, hpaid⟩ := ht.award
        simp only [hscore]
        have hcharged : (t.setInfo { t.settlementInfo with
            score := some (Function.update score i (some ss)) }).Paid win ss paid :=
          ⟨ht.settling.setInfo rfl rfl, nofun, ⟨award, haward, hpaid⟩, ht.part⟩
        refine (settles_changeOnePlayerScore hcharged.settling.busy (some i) (-ss)).bind
          fun a u hu => ?_
        obtain ⟨rfl, ha⟩ := hu
        cases a with
        | other => exact ha.elim
        | number n =>
            have hn : -ss ≤ n ∧ n ≤ 0 := by
              rw [pays_number] at ha
              split at ha <;> omega
            have hnew : i ∉ paid.map Prod.fst := fun hmem =>
              (List.nodup_append.mp hnodup).2.2 i hmem i List.mem_cons_self rfl
            have hnext := ih (paid ++ [(i, n)]) (Function.update lose i (lose i + (ss + n)))
              (sum + n) (by simp [hsum]) (by simpa using hnodup) (hcharged.cons haward rfl hnew hn)
            simp only [setInfo, Option.bind_some, Function.update_self, haward]
            refine hnext.mono (fun _ h => h) fun r u h => ?_
            rw [List.filter_cons_of_pos (by simpa using hi)]
            simpa using h

theorem Paid.zeroSum {paid : List (Nat × Int)} {award : Nat → Option Answer}
    (ht : t.Paid win ss paid) (haward : t.settlementInfo.award = some award)
    (hseats : paid.map Prod.fst = ([1, 2] : List Nat).filter fun i => i ≠ win)
    (hdraw : win = 0 → ss = 0) (x : Decision) :
    (Settled.mk x (Function.update award win
      (some (.number |(paid.map Prod.snd).sum|)))).ZeroSum := by
  obtain ⟨award', haward', hpaid⟩ := ht.award
  obtain rfl := Option.some.inj (haward'.symm.trans haward)
  have hpart := ht.part
  rcases ht.settling.won.seat with rfl | rfl | rfl
  · obtain rfl := hdraw rfl
    have hseats : paid.map Prod.fst = [1, 2] := hseats
    obtain ⟨⟨i, a⟩, rest, rfl, rfl, hrest⟩ := List.map_eq_cons_iff.mp hseats
    obtain ⟨⟨j, b⟩, rest, rfl, rfl, hrest⟩ := List.map_eq_cons_iff.mp hrest
    have ha := hpart (1, a) (by simp)
    have hb := hpart (2, b) (by simp)
    exact ⟨a, b, hpaid (1, a) (by simp), hpaid (2, b) (by simp), by simp only at ha hb; omega⟩
  · have hseats : paid.map Prod.fst = [2] := hseats
    obtain ⟨⟨i, a⟩, rest, rfl, rfl, hrest⟩ := List.map_eq_cons_iff.mp hseats
    obtain rfl := List.map_eq_nil_iff.mp hrest
    have ha := hpart (2, a) (by simp)
    refine ⟨|a|, a, by simp, hpaid (2, a) (by simp), ?_⟩
    rw [abs_of_nonpos ha.2, neg_add_cancel]
  · have hseats : paid.map Prod.fst = [1] := hseats
    obtain ⟨⟨i, a⟩, rest, rfl, rfl, hrest⟩ := List.map_eq_cons_iff.mp hseats
    obtain rfl := List.map_eq_nil_iff.mp hrest
    have ha := hpart (1, a) (by simp)
    refine ⟨a, |a|, hpaid (1, a) (by simp), by simp, ?_⟩
    rw [abs_of_nonpos ha.2, add_neg_cancel]

theorem Ledger.settle {x : Settled} (h : t.Ledger (t.curRace - 1) [x.decision] [x.decision])
    (hrace : 1 ≤ t.curRace) (hx : x.decision.race = t.curRace) (hzero : x.ZeroSum)
    (hu : u.settled = t.settled ++ [x] ∧ u.runs = t.runs ∧ u.decisions = t.decisions) :
    u.Ledger t.curRace [] [] := by
  obtain ⟨hsettled, hruns, hdecisions⟩ := hu
  refine ⟨?_, ?_, ?_, fun y hy => ?_⟩
  · have hsucc : t.curRace = t.curRace - 1 + 1 := by omega
    rw [hsettled, List.map_append, h.races, hsucc, List.range'_concat, List.map_singleton, hx]
    congr 2
    omega
  · rw [hruns, hsettled, h.runs]
    simp
  · rw [hdecisions, hsettled, h.decisions]
    simp
  · rw [hsettled] at hy
    rcases List.mem_append.mp hy with hy | hy
    · exact h.zero y hy
    · obtain rfl := List.mem_singleton.mp hy
      exact hzero

structure Told (t : Table) : Prop where
  status : t.status = .settlement
  time : t.time = none
  sane : t.Sane
  full : t.Full
  log : t.log = true
  ledger : t.Ledger t.curRace [] []

theorem settles_told (h : t.Told) :
    Settles (fun _ => Calm) ((saveRaceOverLog t).bind fun _ t =>
      if t.returned then .raised t else .done (t.waitFor .nextGame) ()) := by
  unfold saveRaceOverLog
  rw [if_pos h.log]
  refine ⟨⟨.inl h.status, h.time, h.full, h.sane.returned, .inr h.ledger⟩, fun a u _ hu _ => ?_⟩
  subst hu
  change Settles _ (if t.returned = true then _ else _)
  rw [if_neg (by simp [h.sane.returned])]
  exact .settled rfl rfl ⟨h.sane.raceTimes, h.sane.returned, h.sane.stake⟩ h.full
    ⟨h.ledger.races, h.ledger.runs, h.ledger.decisions, h.ledger.zero⟩

theorem settles_payWinner {paid : List (Nat × Int)} (lose : Nat → Int)
    (hdraw : win = 0 → ss = 0) (ht : t.Paid win ss paid)
    (hseats : paid.map Prod.fst = ([1, 2] : List Nat).filter fun i => i ≠ win) :
    Settles (fun _ => Calm) (payWinner lose (paid.map Prod.snd).sum t) := by
  have hwin := ht.settling.won.winSeat
  obtain ⟨award, haward, -⟩ := ht.award
  unfold payWinner
  refine (settles_changeOnePlayerScore ht.settling.busy t.settlementInfo.winSeat
    |(paid.map Prod.snd).sum|).bind fun a u hu => ?_
  obtain ⟨rfl, ha⟩ := hu
  cases a with
  | other => exact ha.elim
  | number n =>
      have hn : n = |(paid.map Prod.snd).sum| := by
        rw [pays_number] at ha
        have hnonneg := abs_nonneg (paid.map Prod.snd).sum
        split at ha <;> omega
      obtain ⟨hsane, hfull, hlog, hrace, hledger⟩ := ht.settling.playing
      simp only [hwin, haward]
      have hzero := ht.zeroSum haward hseats hdraw ⟨u.curRace, some win⟩
      rw [← hn] at hzero
      exact settles_told ⟨ht.settling.status, ht.settling.time,
        ⟨hsane.raceTimes, hsane.returned, hsane.stake⟩, hfull, hlog,
        Ledger.settle (t := u) (x := ⟨⟨u.curRace, some win⟩, _⟩) hledger hrace rfl hzero
          ⟨rfl, rfl, rfl⟩⟩

structure Due (t : Table) (win : Nat) : Prop where
  status : t.status = .settlement
  time : t.time = none
  won : t.Won win
  playing : t.Playing [⟨t.curRace, some win⟩] []

theorem settles_settlement (h : t.Due win) : Settles (fun _ => Calm) (settlement t) := by
  obtain ⟨hsane, hfull, hlog, hrace, hledger⟩ := h.playing
  have hss : 0 ≤ t.stake.2 ∧ (win = 0 → t.stake.2 = 0) := by
    unfold stake
    refine ⟨?_, fun hzero => by rw [h.won.draw hzero]⟩
    split <;> first | exact hsane.stake | exact le_refl _
  have hstart : Paid { t with
      pRate := t.stake.1
      runs := t.runs ++ [⟨t.curRace, t.settlementInfo.winSeat⟩]
      settlementInfo := { t.settlementInfo with
        award := some fun _ => none
        score := some fun _ => none } } win t.stake.2 [] := by
    refine ⟨⟨h.status, h.time, ⟨h.won.winSeat, h.won.seat, h.won.draw⟩,
      ⟨hsane.raceTimes, hsane.returned, hsane.stake⟩, hfull, hlog, hrace, hledger.races, ?_,
      hledger.decisions, hledger.zero⟩, nofun, ⟨_, rfl, nofun⟩, nofun⟩
    change t.runs ++ [⟨t.curRace, t.settlementInfo.winSeat⟩] = _
    rw [hledger.runs, h.won.winSeat, List.append_nil]
  unfold settlement
  refine (settles_chargeLosers hss.1 [1, 2] [] (fun _ => 0) 0 rfl (by decide) hstart).bind
    fun r u hu => ?_
  obtain ⟨lose, sum⟩ := r
  obtain ⟨paid, hpaid, rfl, hseats⟩ := hu
  exact settles_payWinner lose hss.2 hpaid hseats

/-! ## The next game -/

theorem settles_gameover (hstatus : t.status = .gameover) (htime : t.time = none) (hfull : t.Full)
    (hreturned : t.returned = false) (h : t.Ledger t.curRace [] []) :
    Settles (fun _ => Calm) (gameover t) := by
  refine ⟨⟨.inr hstatus, htime, hfull, hreturned, .inr h⟩, fun a u _ hu _ => ?_⟩
  subst hu
  exact .returned rfl ⟨h.races, h.runs, h.decisions, h.zero⟩

theorem waiting_newGame (hreturned : t.returned = false)
    (hstake : 0 ≤ t.config.initStake * t.config.initRate) (h : t.Ledger t.curRace [] []) :
    t.newGame.Waiting where
  sane := ⟨fun seat hseat => by
    change perSeat 360 seat ≠ none at hseat
    unfold perSeat seatCount at hseat
    split at hseat
    · omega
    · exact absurd rfl hseat, hreturned, hstake⟩
  time := rfl
  race := Nat.le_add_left 1 t.curRace
  ledger := ⟨h.races, h.runs, h.decisions, h.zero⟩
  seats seat hseat := by
    change perSeat 0 seat = some 0 at hseat
    unfold perSeat seatCount at hseat
    split at hseat
    · omega
    · cases hseat
  count := rfl

theorem settles_nextGame (hsane : t.Sane) (hfull : t.Full) (h : t.Ledger t.curRace [] []) :
    Settles (fun _ => Calm) (nextGame t) := by
  unfold nextGame
  split
  · exact .waitP rfl (waiting_newGame hsane.returned hsane.stake h)
  · exact settles_gameover rfl rfl hfull hsane.returned
      ⟨h.races, h.runs, h.decisions, h.zero⟩

/-! ## Commands -/

def core (t : Table) :=
  (t.config, t.curRace, t.ready, t.log, t.returned, t.decisions, t.runs, t.settled)

theorem Playing.congr {pending running : List Decision} (h : t.Playing pending running)
    (hcore : u.core = t.core)
    (htimes : ∀ seat, u.pRaceTimes seat ≠ none → t.pRaceTimes seat ≠ none) :
    u.Playing pending running := by
  simp only [core, Prod.mk.injEq] at hcore
  obtain ⟨hconfig, hrace, hready, hlog, hreturned, hdecisions, hruns, hsettled⟩ := hcore
  refine ⟨⟨fun seat hseat => h.sane.raceTimes seat (htimes seat hseat),
    hreturned.trans h.sane.returned, by rw [hconfig]; exact h.sane.stake⟩,
    fun seat => by rw [hready]; exact h.full seat, hlog.trans h.log, hrace ▸ h.race,
    ?_, ?_, ?_, ?_⟩
  · rw [hsettled, hrace]
    exact h.ledger.races
  · rw [hruns, hsettled]
    exact h.ledger.runs
  · rw [hdecisions, hsettled]
    exact h.ledger.decisions
  · rw [hsettled]
    exact h.ledger.zero

theorem Playing.decide (h : t.Playing [] []) (type : SettleType) (win : Nat) :
    (t.decideGame type win).Playing [⟨t.curRace, some win⟩] [] := by
  refine ⟨⟨h.sane.raceTimes, h.sane.returned, h.sane.stake⟩, h.full, h.log, h.race,
    h.ledger.races, h.ledger.runs, ?_, h.ledger.zero⟩
  change t.decisions ++ [_] = _
  rw [h.ledger.decisions, List.append_nil]
  rfl

theorem Playing.setTime {pending running : List Decision} {seat : Nat} {left : Int}
    (h : t.Playing pending running) (hcore : u.core = t.core) (hseat : t.pRaceTimes seat ≠ none)
    (htimes : u.pRaceTimes = Function.update t.pRaceTimes seat (some left)) :
    u.Playing pending running := by
  refine h.congr hcore fun s hs => ?_
  by_cases heq : s = seat
  · rwa [heq]
  · rwa [htimes, Function.update_of_ne heq] at hs

theorem Calm.full (h : t.Calm) (hreturned : t.returned = false) (hstatus : t.status ≠ .waitP) :
    t.Full := by
  cases h with
  | waitP hs h => exact absurd hs hstatus
  | xq _ _ h => exact h.full
  | going _ _ h => exact h.full
  | won _ _ _ _ _ h => exact h.full
  | settled _ _ _ hfull _ => exact hfull
  | returned htrue _ => simp_all

theorem Calm.waiting (h : t.Calm) (hreturned : t.returned = false) (hstatus : t.status = .waitP) :
    t.Waiting := by
  cases h with
  | waitP _ h => exact h
  | _ => simp_all

theorem Calm.playing (h : t.Calm) (hreturned : t.returned = false) (hgoing : t.Going) :
    t.Playing [] [] := by
  cases h with
  | xq _ _ h => exact h
  | going _ _ h => exact h
  | _ => simp_all [Going]

theorem Calm.time (h : t.Calm) (hreturned : t.returned = false) (hstatus : t.status = .xq) :
    t.time = none := by
  cases h with
  | xq _ htime _ => exact htime
  | _ => simp_all

theorem settles_settleNow (h : t.Playing [] []) (type : SettleType) (seat : Nat) :
    Settles (fun _ => Calm) (settleNow (t.decideGame type (otherSeat seat))) := by
  have hseat : otherSeat seat = 1 ∨ otherSeat seat = 2 := by
    unfold otherSeat seatCount
    split <;> omega
  have hdecided := h.decide type (otherSeat seat)
  exact settles_settlement ⟨rfl, rfl,
    ⟨rfl, .inr hseat, fun hzero => by omega⟩, hdecided.congr rfl fun _ h => h⟩

theorem settles_xiaqiRenshu (ht : t.Calm) (seat : Nat) (hok : t.InTime (.xiaqiRenshu seat)) :
    (xiaqiRenshu seat t).Alone Answered Busy Calm := by
  unfold xiaqiRenshu
  split
  · exact ht
  · rename_i hreturned
    have hreturned : t.returned = false := by simpa using hreturned
    have hplaying := ht.playing hreturned (hok.resolve_left (by simp [hreturned]))
    exact (settles_settleNow hplaying _ seat).mono (fun _ h => h.elim) fun _ _ h => h

theorem settles_xiaqiTimeout (ht : t.Calm) (seat : Nat) (hok : t.InTime (.xiaqiTimeout seat)) :
    (xiaqiTimeout seat t).Alone Answered Busy Calm := by
  unfold xiaqiTimeout
  split
  · exact ht
  · rename_i hreturned
    have hreturned : t.returned = false := by simpa using hreturned
    split
    · rename_i time operTime htime hoper
      have hgoing : t.Going := by
        rcases hok with h | h | h | h
        · exact absurd (hreturned.symm.trans h) nofun
        · exact h
        · exact absurd (h.symm.trans htime) nofun
        · exact absurd (h.symm.trans hoper) nofun
      have hplaying : Playing { t with
          pRaceTimes := Function.update t.pRaceTimes seat (some (time - operTime)) } [] [] :=
        (ht.playing hreturned hgoing).setTime rfl (by simp [htime]) rfl
      exact (settles_settleNow hplaying _ seat).mono (fun _ h => h.elim) fun _ _ h => h
    · exact ht

theorem settles_xiaqi (ht : t.Calm) (seat pos : Nat) (now : Int) :
    (xiaqi seat pos now t).Alone Answered Busy Calm := by
  unfold xiaqi
  split
  · exact ht
  rename_i hreturned
  have hreturned : t.returned = false := by simpa using hreturned
  split
  · exact ht
  rename_i hstatus
  have hstatus : t.status = .xq := by
    by_contra h
    exact hstatus (.inl h)
  split
  · exact ht
  split
  · exact ht
  have hplaying := ht.playing hreturned (.inl hstatus)
  have htime := ht.time hreturned hstatus
  dsimp only
  split
  · rename_i time begin hrace hbegin
    have hrace : t.pRaceTimes seat ≠ none := fun h => absurd (h.symm.trans hrace) nofun
    have hseat := hplaying.sane.raceTimes seat hrace
    have hput : Playing { t.putChess seat pos with
        pRaceTimes := Function.update t.pRaceTimes seat (some (time - (now - begin))) } [] [] :=
      hplaying.setTime rfl hrace rfl
    split
    · exact .won rfl rfl nofun seat ⟨rfl, .inr hseat, fun hzero => by omega⟩
        ((hput.decide .nor seat).congr rfl fun _ h => h)
    split
    · exact .won rfl rfl nofun 0 ⟨rfl, .inl rfl, fun _ => rfl⟩
        ((hput.decide .qiPanXiaMan 0).congr rfl fun _ h => h)
    · exact .going rfl (.inr rfl) (hput.congr rfl fun _ h => h)
  · exact .xq hstatus htime (hplaying.congr rfl fun _ h => h)

theorem settles_update (ht : t.Calm) (clock : Clock) :
    (update clock t).Alone Answered Busy Calm := by
  unfold update
  split
  · exact ht
  rename_i hreturned
  have hreturned : t.returned = false := by simpa using hreturned
  cases htime : t.time with
  | none => exact ht
  | some time =>
      dsimp only
      cases ht with
      | waitP _ h => exact absurd (h.time.symm.trans htime) nofun
      | xq _ hnone _ => exact absurd (hnone.symm.trans htime) nofun
      | returned htrue _ => exact absurd (htrue.symm.trans hreturned) nofun
      | going hstatus hnext h =>
          split
          · rcases hnext with hnext | hnext
            · rw [hnext]
              exact .going rfl (.inr rfl) (h.congr rfl fun _ h => h)
            · rw [hnext]
              unfold changeStatus xiaqiPermit
              dsimp only
              split
              · exact .xq rfl rfl (h.congr rfl fun _ h => h)
              · exact .xq rfl rfl (h.congr rfl fun _ h => h)
          · exact .going hstatus hnext (h.congr rfl fun _ h => h)
      | won hstatus hnext _ win hwon h =>
          split
          · rw [hnext]
            have hdue : Due { t with time := none, status := .settlement } win :=
              ⟨rfl, rfl, ⟨hwon.winSeat, hwon.seat, hwon.draw⟩, h.congr rfl fun _ h => h⟩
            exact (settles_settlement hdue).mono (fun _ h => h.elim) fun _ _ h => h
          · exact .won hstatus hnext nofun win ⟨hwon.winSeat, hwon.seat, hwon.draw⟩
              (h.congr rfl fun _ h => h)
      | settled hstatus hnext hsane hfull h =>
          have hsane' (u : Table) (hconfig : u.config = t.config)
              (htimes : u.pRaceTimes = t.pRaceTimes) (hreturned : u.returned = t.returned) :
              u.Sane :=
            ⟨by rw [htimes]; exact hsane.raceTimes, hreturned.trans hsane.returned,
              by rw [hconfig]; exact hsane.stake⟩
          split
          · rw [hnext]
            have hnextGame : Settles (fun _ => Calm)
                (nextGame { t with time := none, status := .nextGame }) :=
              settles_nextGame (hsane' _ rfl rfl rfl) hfull
                ⟨h.races, h.runs, h.decisions, h.zero⟩
            exact hnextGame.mono (fun _ h => h.elim) fun _ _ h => h
          · exact .settled hstatus hnext (hsane' _ rfl rfl rfl) hfull
              ⟨h.races, h.runs, h.decisions, h.zero⟩

theorem settles_join (ht : t.Calm) (playerId : PlayerId) (seatNum : Option Nat) :
    (join playerId seatNum t).Alone Answered Busy Calm := by
  unfold join
  split
  · exact ht
  rename_i hno
  have hreturned : t.returned = false := by simpa using fun h => hno (.inl h)
  have hstatus : t.status = .waitP := by
    by_contra h
    exact hno (.inr (.inr (.inl h)))
  have hwaiting := ht.waiting hreturned hstatus
  split
  · exact ht
  · exact .waitP hstatus ⟨⟨hwaiting.sane.raceTimes, hreturned, hwaiting.sane.stake⟩,
      hwaiting.time, hwaiting.race,
      ⟨hwaiting.ledger.races, hwaiting.ledger.runs, hwaiting.ledger.decisions,
        hwaiting.ledger.zero⟩, hwaiting.seats, hwaiting.count⟩

theorem Waiting.count_ready {seat : Nat} (h : t.Waiting) (hready : t.ready seat = some 0) :
    t.pReady + 1 = ([1, 2] : List Nat).countP fun s =>
      Function.update t.ready seat (some 1) s ≠ some 0 := by
  have hcount := h.count
  rcases h.seats seat hready with rfl | rfl
  · simp [List.countP_cons, hready] at hcount ⊢
    omega
  · simp [List.countP_cons, hready] at hcount ⊢
    omega

theorem settles_readySeat (ht : t.Calm) (seat : Nat) :
    (readySeat seat t).Alone Answered Busy Calm := by
  unfold readySeat
  split
  · exact ht
  rename_i hreturned
  have hreturned : t.returned = false := by simpa using hreturned
  split
  · exact ht
  rename_i hready
  have hready : t.ready seat = some 0 := not_not.mp hready
  have hstatus : t.status = .waitP := by
    by_contra h
    exact ht.full hreturned h seat hready
  have hwaiting := ht.waiting hreturned hstatus
  have hseats (s : Nat) (hs : Function.update t.ready seat (some 1) s = some 0) :
      s = 1 ∨ s = 2 := by
    by_cases heq : s = seat
    · rw [heq, Function.update_self] at hs
      cases hs
    · rw [Function.update_of_ne heq] at hs
      exact hwaiting.seats s hs
  have hcount := hwaiting.count_ready hready
  dsimp only
  split
  · rename_i hall
    have hfull (s : Nat) : Function.update t.ready seat (some 1) s ≠ some 0 := by
      intro hs
      have hmem : s ∈ ([1, 2] : List Nat) := by simpa using hseats s hs
      rw [hall] at hcount
      have hevery := List.countP_eq_length.mp hcount.symm s hmem
      exact absurd hs (of_decide_eq_true hevery)
    exact .going rfl (.inl rfl) ⟨⟨hwaiting.sane.raceTimes, hreturned, hwaiting.sane.stake⟩,
      hfull, rfl, hwaiting.race, hwaiting.ledger.races, hwaiting.ledger.runs,
      hwaiting.ledger.decisions, hwaiting.ledger.zero⟩
  · exact .waitP hstatus ⟨⟨hwaiting.sane.raceTimes, hreturned, hwaiting.sane.stake⟩,
      hwaiting.time, hwaiting.race,
      ⟨hwaiting.ledger.races, hwaiting.ledger.runs, hwaiting.ledger.decisions,
        hwaiting.ledger.zero⟩, hseats, hcount⟩

/-! ## While a handler waits -/

theorem idle_join (ht : t.Busy) (playerId : PlayerId) (seatNum : Option Nat) :
    (join playerId seatNum t).Idle t := by
  unfold join
  rw [if_pos]
  · rfl
  · rcases ht.status with h | h <;> simp [h]

theorem idle_readySeat (ht : t.Busy) (seat : Nat) : (readySeat seat t).Idle t := by
  unfold readySeat
  rw [if_neg (by simp [ht.returned]), if_pos (ht.full seat)]
  rfl

theorem idle_xiaqi (ht : t.Busy) (seat pos : Nat) (now : Int) : (xiaqi seat pos now t).Idle t := by
  unfold xiaqi
  rw [if_neg (by simp [ht.returned]), if_pos]
  · rfl
  · rcases ht.status with h | h <;> simp [h]

theorem idle_update (ht : t.Busy) (clock : Clock) : (update clock t).Idle t := by
  unfold update
  rw [if_neg (by simp [ht.returned]), ht.time]
  rfl

theorem Busy.not_going (ht : t.Busy) : ¬t.Going := by
  rcases ht.status with h | h <;> simp [Going, h]

theorem idle_xiaqiTimeout (ht : t.Busy) (seat : Nat) (hok : t.InTime (.xiaqiTimeout seat)) :
    (xiaqiTimeout seat t).Idle t := by
  unfold xiaqiTimeout
  rw [if_neg (by simp [ht.returned])]
  rcases hok with h | h | h | h
  · exact absurd (ht.returned.symm.trans h) nofun
  · exact absurd h ht.not_going
  · rw [h]
    rfl
  · rw [h]
    cases t.pRaceTimes seat <;> rfl

end Table

section Runs

variable {t : Table} {e : Event}

theorem alone_handle (ht : t.Calm) (hok : t.InTime e) :
    (handle e t).Alone Answered Table.Busy Table.Calm := by
  cases e with
  | join playerId seatNum => exact (Table.settles_join ht playerId seatNum).bind fun _ _ h => h
  | ready seat => exact (Table.settles_readySeat ht seat).bind fun _ _ h => h
  | xiaqi seat pos now => exact (Table.settles_xiaqi ht seat pos now).bind fun _ _ h => h
  | xiaqiRenshu seat => exact (Table.settles_xiaqiRenshu ht seat hok).bind fun _ _ h => h
  | xiaqiTimeout seat => exact (Table.settles_xiaqiTimeout ht seat hok).bind fun _ _ h => h
  | update clock => exact (Table.settles_update ht clock).bind fun _ _ h => h

theorem idle_handle (ht : t.Busy) (hok : t.InTime e) : (handle e t).Idle t := by
  cases e with
  | join playerId seatNum => exact (Table.idle_join ht playerId seatNum).bind
  | ready seat => exact (Table.idle_readySeat ht seat).bind
  | xiaqi seat pos now => exact (Table.idle_xiaqi ht seat pos now).bind
  | xiaqiRenshu seat =>
      rcases hok with h | h
      · exact absurd (ht.returned.symm.trans h) nofun
      · exact absurd h ht.not_going
  | xiaqiTimeout seat => exact (Table.idle_xiaqiTimeout ht seat hok).bind
  | update clock => exact (Table.idle_update ht clock).bind

def Timely : World Table Call Answer (Option Int) → Input Event Answer → Prop :=
  World.Admits Answered Table.InTime fun _ => True

theorem find_race {l : List Decision} (hl : (l.map Decision.race).Nodup) {x : Decision}
    (hx : x ∈ l) : l.find? (fun y => y.race = x.race) = some x := by
  induction l with
  | nil => cases hx
  | cons y l ih =>
      rw [List.map_cons, List.nodup_cons] at hl
      rcases List.mem_cons.mp hx with rfl | hx
      · exact List.find?_cons_of_pos (by simp)
      · have hne : y.race ≠ x.race := fun h => hl.1 (h ▸ List.mem_map_of_mem hx)
        rw [List.find?_cons_of_neg (by simpa using hne)]
        exact ih hl.2 hx

theorem Table.Ledger.settledOnce {k : Nat} {pending running : List Decision}
    {waiting : List (Call × (Answer → Table → Prog Table Call Answer (Option Int)))}
    (h : t.Ledger k pending running) (hrunning : running <+: pending)
    (hraces : pending.map Decision.race = List.range' (k + 1) pending.length)
    (hevery : ∀ race, race < t.curRace ∨ t.returned = true ∧ race = t.curRace → race ≤ k)
    (hpending : pending ≠ [] → waiting ≠ [] ∨
      t.status = .wait ∧ t.nextStatus = some .settlement ∧ t.time ≠ none) :
    SettledOnce ⟨t, waiting⟩ := by
  have hsettled : (t.settled.map Settled.decision).map Decision.race = List.range' 1 k := by
    rw [List.map_map]
    exact h.races
  have hdecisions : t.decisions.map Decision.race = List.range' 1 (k + pending.length) := by
    rw [h.decisions, List.map_append, hsettled, hraces, Nat.add_comm k 1, List.range'_append_1]
  have hnodup : (t.decisions.map Decision.race).Nodup := hdecisions ▸ List.nodup_range'
  have hruns : t.runs <+: t.decisions := by
    rw [h.runs, h.decisions]
    exact (List.prefix_append_right_inj _).mpr hrunning
  refine ⟨hnodup.sublist (hruns.sublist.map _), fun x hx => ?_, fun x hx => ⟨?_, h.zero x hx⟩,
    fun race hone hrace => ?_, fun x hx => ?_⟩
  · exact find_race hnodup (hruns.subset hx)
  · change x.decision ∈ t.runs
    rw [h.runs]
    exact List.mem_append_left _ (List.mem_map_of_mem hx)
  · have hmem : race ∈ t.settled.map fun x => x.decision.race := by
      rw [h.races, List.mem_range'_1]
      have hle := hevery race hrace
      omega
    obtain ⟨x, hx, heq⟩ := List.mem_map.mp hmem
    exact ⟨x, hx, heq⟩
  · change x ∈ t.decisions at hx
    rw [h.decisions] at hx
    rcases List.mem_append.mp hx with hx | hx
    · obtain ⟨y, hy, heq⟩ := List.mem_map.mp hx
      exact .inl ⟨y, hy, heq⟩
    · exact .inr (hpending (List.ne_nil_of_mem hx))

theorem settledOnce_calm (ht : t.Calm) : SettledOnce ⟨t, []⟩ := by
  have hplaying {running : List Decision} {pending : List Decision} (h : t.Playing pending running)
      (race : Nat) (hrace : race < t.curRace ∨ t.returned = true ∧ race = t.curRace) :
      race ≤ t.curRace - 1 := by
    have hpos := h.race
    have hreturned := h.sane.returned
    rcases hrace with h | ⟨h, -⟩
    · omega
    · exact absurd (h.symm.trans hreturned) nofun
  cases ht with
  | waitP hstatus h =>
      refine h.ledger.settledOnce (List.prefix_refl _) rfl (fun race hrace => ?_)
        fun h => absurd rfl h
      have hpos := h.race
      rcases hrace with hrace | ⟨hrace, -⟩
      · omega
      · exact absurd (hrace.symm.trans h.sane.returned) nofun
  | xq hstatus htime h =>
      exact h.ledger.settledOnce (List.prefix_refl _) rfl (hplaying h) fun h => absurd rfl h
  | going hstatus hnext h =>
      exact h.ledger.settledOnce (List.prefix_refl _) rfl (hplaying h) fun h => absurd rfl h
  | won hstatus hnext htime win hwon h =>
      refine h.ledger.settledOnce List.nil_prefix ?_ (hplaying h)
        fun _ => .inr ⟨hstatus, hnext, htime⟩
      have hpos := h.race
      simp only [List.map_singleton, List.length_singleton, List.range'_one]
      congr 1
      omega
  | settled hstatus hnext hsane hfull h =>
      exact h.settledOnce (List.prefix_refl _) rfl
        (fun race hrace => by rcases hrace with h | ⟨-, h⟩ <;> omega) fun h => absurd rfl h
  | returned hreturned h =>
      exact h.settledOnce (List.prefix_refl _) rfl
        (fun race hrace => by rcases hrace with h | ⟨-, h⟩ <;> omega) fun h => absurd rfl h

theorem settledOnce_busy (ht : t.Busy)
    {waiting : List (Call × (Answer → Table → Prog Table Call Answer (Option Int)))}
    (hwaiting : waiting ≠ []) : SettledOnce ⟨t, waiting⟩ := by
  rcases ht.ledger with ⟨x, hrace, hpos, h⟩ | h
  · refine h.settledOnce (List.prefix_refl _) ?_ (fun race hr => ?_) fun _ => .inl hwaiting
    · simp only [List.map_singleton, List.length_singleton, List.range'_one, hrace]
      congr 1
      omega
    · rcases hr with hr | ⟨hr, -⟩
      · omega
      · exact absurd (ht.returned.symm.trans hr) nofun
  · exact h.settledOnce (List.prefix_refl _) rfl
      (fun race hrace => by rcases hrace with h | ⟨-, h⟩ <;> omega) fun h => absurd rfl h

end Runs

theorem calm_newTable (config : TableConfig) (hstake : 0 ≤ config.initStake * config.initRate) :
    (Table.newTable config).Calm :=
  .waitP rfl (Table.waiting_newGame rfl hstake ⟨rfl, rfl, rfl, nofun⟩)

/-- While no game is given up and no time runs out once it is decided, each game is settled once,
for the one who was decided first. -/
theorem games_settled_once {config : TableConfig}
    (hstake : 0 ≤ config.initStake * config.initRate)
    {w : World Table Call Answer (Option Int)}
    (h : Reach (World.step handle) Timely ⟨Table.newTable config, []⟩ w) : SettledOnce w := by
  have hsingle := World.single_of_reach (fun _ _ => alone_handle) (fun _ _ => idle_handle)
    (calm_newTable config hstake) h
  obtain ⟨t, waiting⟩ := w
  rcases hsingle with ⟨rfl, hcalm⟩ | ⟨q, resume, rfl, hbusy, -⟩
  · exact settledOnce_calm hcalm
  · exact settledOnce_busy hbusy (List.cons_ne_nil _ _)

instance decidablePays (score : Int) : DecidablePred (Pays score) := fun a => by
  cases a <;> unfold Pays <;> infer_instance

instance decidableAnswered (q : Call) : DecidablePred (Answered q) := fun a => by
  cases q <;> unfold Answered <;> infer_instance

def sit : List (Input Event Answer) :=
  [.command (.join "a" none), .command (.join "b" none), .command (.ready 1), .command (.ready 2)]

def second : List (Input Event Answer) :=
  [.command (.update ⟨0, 1⟩), .command (.update ⟨0, 1⟩)]

def gaveUp : List (Input Event Answer) :=
  sit ++ second ++ second ++ [.command (.xiaqiRenshu 1), .answer 0 (.number (-30)),
    .answer 0 (.number 30), .answer 0 .other] ++ second ++ [.answer 0 .other]

def stakes : TableConfig := { initStake := 100 }

theorem games_settled_once_gaveUp :
    (run (World.step handle) ⟨Table.newTable stakes, []⟩ gaveUp).state.returned = true ∧
      SettledOnce (run (World.step handle) ⟨Table.newTable stakes, []⟩ gaveUp) := by
  have hallowed : Allowed (World.step handle)
      (World.Admits Answered Table.InTime fun _ => True) ⟨Table.newTable stakes, []⟩ gaveUp := by
    decide +kernel
  exact ⟨by decide +kernel, games_settled_once (by decide) (reach_run hallowed)⟩

def bothGaveUp : List (Input Event Answer) :=
  sit ++ second ++ second ++ [.command (.xiaqiRenshu 1), .command (.xiaqiRenshu 2)]

def lateTimeout : List (Input Event Answer) :=
  sit ++ second ++ second ++
    ([1010, 2010, 3010, 4010].flatMap fun pos =>
      [.command (.xiaqi 1 pos 0)] ++ second ++ [.command (.xiaqi 2 (pos + 10) 0)] ++ second) ++
    [.command (.xiaqi 1 5010 0), .command (.xiaqiTimeout 1)]

/-- The game is settled twice, each time for another winner; or it is settled for the one who has
lost it. -/
theorem game_settled_twice :
    0 ≤ stakes.initStake * stakes.initRate ∧ ∀ es ∈ [bothGaveUp, lateTimeout],
      Reach (World.step handle) (World.Admits Answered (fun _ _ => True) fun _ => True)
          ⟨Table.newTable stakes, []⟩ (run (World.step handle) ⟨Table.newTable stakes, []⟩ es) ∧
        ¬SettledOnce (run (World.step handle) ⟨Table.newTable stakes, []⟩ es) := by
  refine ⟨by decide, List.forall_mem_cons.mpr ⟨⟨reach_run (by decide +kernel), fun h => ?_⟩,
    List.forall_mem_singleton.mpr ⟨reach_run (by decide +kernel), fun h => ?_⟩⟩⟩
  · have honce := h.once
    revert honce
    decide +kernel
  · have hfirst := h.first
    revert hfirst
    decide +kernel

end JyQipai.Gobang
