import JyQipai.Mj.Table

/-!
# Money of a Mahjong hand

`deal_change_score` and the functions around it: a payment asks each loser for
an amount, books what was really paid, and credits the sum to the winner.  The
argument `race` of a payment is the number of the hand its command belongs to;
only the history variables use it.
-/

namespace JyQipai.Mj

open JyQipai.Lib

inductive PayType where
  | hu (type : HuType)
  | gang (type : PgType)
  | cj
  | chz
  | ts
  | zhuanYu
  deriving DecidableEq, Repr

def PayType.isHu : PayType → Bool
  | .hu _ => true
  | _ => false

def transMulTotal (mul : Nat) : Nat := 2 ^ mul

def gangMul : PgType → Nat
  | .wg => 0
  | _ => 1

namespace Table

variable (F : NumFormat)

def book (t : Table) (race s : Nat) (score loseSurplus : Int) : Table :=
  { t with
    sInfo := Function.update t.sInfo s { t.sInfo s with
      score := (t.sInfo s).score + score
      loseSurplus := (t.sInfo s).loseSurplus + loseSurplus }
    money := Function.update t.money race
      (Function.update (t.money race) s (t.money race s + score))
    late := t.late || (t.reported race).isSome || decide (t.curRace ≠ race) }

/-- `change_one_player_score`; a seat that has left pays what is asked unless the
manager keeps its money. -/
def changeOnePlayerScore (t : Table) (s : Nat) (score : Int)
    (k : Int → Table → M α) : M α :=
  if (t.onLinePlayer s).isSome ∨ t.cfg.backMoney then
    t.ask (.modifyScore s score) k
  else k score t

def getDaPiaoPlayerNum (t : Table) : Nat :=
  (t.seats.filter fun s => 0 < (t.seat s).piaoNum).length

/-- The amount asked of the next loser.  It is kept from one loser to the next, so
that the factor of the piao seats grows. -/
def askedScore (piao : Option Nat) (cap : Option Int) (score : Int) : Int :=
  let score :=
    match piao with
    | none => score
    | some 0 => score
    | some 1 => score * 2
    | some _ => score * 4
  match cap with
  | none => score
  | some m => if m < score then m else score

def payLosers (race seat : Nat) (piao : Option Nat) (cap : Option Int)
    (k : Int → Int → Table → M α) :
    List Nat → Int → Int → Int → Table → M α
  | [], _, sum, surplus, t => k sum surplus t
  | loser :: others, score, sum, surplus, t =>
      if piao.isSome ∧ (5 < (t.seat seat).piaoNum ∨ 5 < (t.seat loser).piaoNum) then
        .raised t
      else
        let score := askedScore piao cap score
        t.changeOnePlayerScore loser (-score) fun deduct t =>
          let ls := score + deduct
          payLosers race seat piao cap k others score (sum + deduct) (surplus + ls)
            (t.book race loser deduct ls)

def payWinner (t : Table) (race seat : Nat) (sum surplus : Int)
    (k : Int → Int → Table → M α) : M α :=
  let sum : Int := |sum|
  (t.book race seat sum (-surplus)).changeOnePlayerScore seat sum fun _ t =>
    k sum surplus t

def dealChangeScore (t : Table) (race seat : Nat) (total : ℚ) (others : List Nat)
    (type : PayType) (k : Int → Int → Table → M α) : M α :=
  let score := ⌊F.mul total t.cfg.initStake⌋
  let piao := if t.cfg.daPiao then some t.getDaPiaoPlayerNum else none
  let pay (cap : Option Int) (t : Table) : M α :=
    payLosers race seat piao cap
      (fun sum surplus t => t.payWinner race seat sum surplus k)
      others score 0 0 t
  if type.isHu ∧ t.cfg.yingfengding then
    t.ask (.yingfengding seat) fun cap t => pay (some cap) t
  else pay none t

def dealChangeScoreByScore (t : Table) (race seat : Nat) (score : Int)
    (others : List Nat) (type : PayType) (k : Int → Int → Table → M α) : M α :=
  dealChangeScore F t race seat (F.div score t.cfg.initStake) others type k

/-- `deal_game_bankrupt`: the seats whose money is used up leave the hand; the
number of online seats without money is returned. -/
def brokeSeats (t : Table) : List Nat :=
  if t.cfg.breakExit then
    t.onLine.filter fun s => t.pScore s + (t.sInfo s).score < 1
  else []

def dealGameBankrupt (t : Table) : Table :=
  { t with
    gameBankrupt := fun s => t.gameBankrupt s || s ∈ t.brokeSeats
    huOrder := fun s => if s ∈ t.brokeSeats then some 0 else t.huOrder s
    overwritten :=
      t.overwritten || t.brokeSeats.any fun s => (t.huOrder s).any (0 < ·) }

def bankruptNum (t : Table) : Nat :=
  (t.cfg.seatList.filter fun s => t.gameBankrupt s).length

def noteCheck (t : Table) (isOver : Bool) : Table :=
  { t with checks := t.checks ++ [(isOver, t.active.length)] }

def getSeatOthers (t : Table) (s : Nat) : List Nat :=
  t.active.filter fun x => x ≠ s

def recordGangScore (t : Table) (race seat : Nat) (type : PgType) (pai : Nat)
    (others : List Nat) (k : Table → M α) : M α :=
  if others = [] then k t
  else
    let mul := gangMul type
    dealChangeScore F t race seat (transMulTotal mul) others (.gang type)
      fun sum surplus t => k { t with
        sInfo := Function.update t.sInfo seat { t.sInfo seat with
          gangScore := (t.sInfo seat).gangScore ++ [
            { gangType := type, pai := pai, mul := mul, others := others
              score := sum, loseSurplus := surplus }] } }

/-! ## Settlement -/

def isHuaZhu (t : Table) (s : Nat) : Bool :=
  paiIds.any fun id => some (flower id) = t.pDingQue s ∧ 0 < (t.seat s).pai.num id

def tingTotal (t : Table) (s : Nat) : Option Nat :=
  t.cfg.algo.maxTingTotal (t.seat s).pai (t.seat s).pgType (t.pDingQue s)

def settleType (t : Table) (s : Nat) : Option SettleType :=
  match t.huOrder s with
  | some n => if 0 < n then some .hu else none
  | none =>
      if (t.tingTotal s).isSome then some .ting
      else if t.isHuaZhu s then some .hz
      else some .wujiao

def tingSeats (t : Table) : List Nat :=
  t.cfg.seatList.filter fun s => t.settleType s = some .ting

def wujiaoSeats (t : Table) : List Nat :=
  t.cfg.seatList.filter fun s =>
    t.settleType s = some .hz ∨ t.settleType s = some .wujiao

/-- The kongs of a seat have been recorded, as `settle_get_pg_pai` asserts. -/
def gangRecorded (t : Table) (s : Nat) : Bool :=
  (t.seat s).pgVec.all fun pai =>
    (t.seat s).pgType pai = some .peng ∨ (t.seat s).pgType pai = some .wg ∨
      (t.sInfo s).gangScore.any fun g => g.pai = pai

def settleGenDatas (t : Table) : Table :=
  { t with sInfo := fun s =>
      if s ∈ t.tingSeats then { t.sInfo s with total := (t.tingTotal s).getD 0 }
      else t.sInfo s }

structure Pay where
  seat : Nat
  total : Nat
  loser : Nat
  type : PayType

/-- The penalties of a seat without a wait: to the seats with a wait, and, for a
flower pig, to those that are none. -/
def chaJiaoPays (t : Table) (wujiao : Nat) : List Pay :=
  let maxMul := 2 ^ (t.cfg.fengDing.getD 10)
  let pig (s : Nat) : Bool := t.settleType s = some .hz
  (t.tingSeats.map fun ting =>
    let total := (t.sInfo ting).total
    if pig wujiao ∧ total < 16 then ⟨ting, min 16 maxMul, wujiao, .chz⟩
    else ⟨ting, min total maxMul, wujiao, .cj⟩) ++
  if pig wujiao then
    (t.wujiaoSeats.filter fun s => ¬ pig s).map fun s =>
      ⟨s, min 16 maxMul, wujiao, .chz⟩
  else []

def tuiShuiPays (t : Table) (wujiao : Nat) : List Pay :=
  (t.sInfo wujiao).gangScore.flatMap fun g =>
    g.others.map fun other =>
      ⟨other, transMulTotal g.mul, g.zhuanYuTo.getD wujiao, .ts⟩

def runPays (race : Nat) (k : Table → M α) : List Pay → Table → M α
  | [], t => k t
  | pay :: pays, t =>
      dealChangeScore F t race pay.seat pay.total [pay.loser] pay.type
        fun _ _ t => runPays race k pays t

def settleChaJiao (t : Table) (race : Nat) (k : Table → M α) : M α :=
  if t.huNum + t.bankruptNum < t.cfg.seatCount - 1 then
    runPays F race k
      (t.wujiaoSeats.flatMap t.chaJiaoPays ++ t.wujiaoSeats.flatMap t.tuiShuiPays)
      t
  else k t

def settleBankrupt (t : Table) : Table :=
  { t with gameBankrupt := fun s =>
      t.gameBankrupt s || (s ∈ t.cfg.seatList ∧ 0 < (t.sInfo s).loseSurplus) }

/-! ## A new hand -/

def newGame (t : Table) : Table :=
  { t with
    toStanding := {}
    toPlayData :=
      { paiPool := (randomList t.rand (allPai t.cfg.gameType)).reverse }
    toPermits := {}
    toCourse := {}
    sInfo := fun _ => {}
    status := if t.curRace = 1 then .waitP else .ready
    ready := fun _ => 0
    pReady := 0
    onLinePlayer := if t.curRace = 1 then fun _ => none else t.onLinePlayer }

def nextGame (t : Table) : Table :=
  if t.isBreakGame ∨ t.cfg.raceCount ≤ t.curRace then t.wait .gameover
  else { t with curRace := t.curRace + 1 }.newGame

def sendSettlement (t : Table) (scores : Nat → Int) : Table :=
  { t with reported := Function.update t.reported t.curRace (some scores) }

def saveRaceOverLog (t : Table) (k : Table → M α) : M α :=
  if t.isBreakRace then k t else t.ask .raceLog fun _ t => k t

def statusSettlement (t : Table) : M Unit :=
  if t.cfg.seatList.all t.gangRecorded = false then .raised t
  else
    let t := t.settleGenDatas
    let finish (t : Table) : M Unit :=
      let t := t.settleBankrupt
      let scores := fun s => (t.sInfo s).score
      t.saveRaceOverLog fun t => .done (t.sendSettlement scores).nextGame ()
    if t.isBreakGame then finish t else t.settleChaJiao F t.curRace finish

end Table

end JyQipai.Mj
