import JyQipai.Lib.Owned

/-!
# A Gobang table

A table of `common_gobang_nor_room_service` from `new_table` until its number is returned.  The
agents of the players, the manager and the log of the data service are the surroundings.
-/

namespace JyQipai.Gobang

open Lib

abbrev PlayerId := String

inductive Status where
  | waitP
  | gameBegin
  | wait
  | xhz
  | xq
  | settlement
  | nextGame
  | gameover
  deriving DecidableEq, Repr

inductive SettleType where
  | timeoutJu
  | timeoutBu
  | renshu
  | qiPanXiaMan
  | nor
  deriving DecidableEq, Repr

/-- `other` is an answer that is no number. -/
inductive Answer where
  | number (n : Int)
  | other
  deriving DecidableEq, Repr

inductive Call where
  | modifyScore (playerId : PlayerId) (score : Int)
  | backMoney (cmd : String) (score : Int)
  | addRaceLog
  | tableFinish
  deriving DecidableEq, Repr

structure SettlementInfo where
  type : Option SettleType := none
  winSeat : Option Nat := none
  award : Option (Nat → Option Answer) := none
  score : Option (Nat → Option Int) := none
  loseSurplus : Option (Nat → Int) := none
  pRate : Option Int := none

structure TableConfig where
  initRate : Int := 1
  initStake : Int := 1
  raceCount : Nat := 1
  backMoneyCmd : Option String := none

structure Decision where
  race : Nat
  winSeat : Option Nat
  deriving DecidableEq, Repr

structure Settled where
  decision : Decision
  award : Nat → Option Answer

def seatCount : Nat := 2

def chessW : Nat := 15

def chessH : Nat := 15

def perSeat {α : Type} (a : α) (seat : Nat) : Option α :=
  if 1 ≤ seat ∧ seat ≤ seatCount then some a else none

/-- A table.  The time is in steps of `update`; `log` says that the log of the game is open, and
`returned` that the number of the table is free again.  `decisions`, `runs` and `settled` are the
histories of the events that end a game, of the calls of `settlement`, and of what it sent. -/
structure Table where
  config : TableConfig
  status : Status := .waitP
  nextStatus : Option Status := none
  time : Option Int := none
  playersJoinFlag : PlayerId → Bool := fun _ => false
  pSeatNumber : Nat → Option PlayerId := fun _ => none
  pCount : Nat := 0
  curRace : Nat := 0
  firstSeat : Nat := 0
  settlementInfo : SettlementInfo := {}
  ready : Nat → Option Nat := perSeat 0
  pReady : Nat := 0
  curP : Nat := 0
  pRate : Int := 1
  pRaceTimes : Nat → Option Int := perSeat 360
  chessboard : Nat → Nat → Nat := fun _ _ => 0
  operList : List Nat := []
  operBeginTime : Option Int := none
  curMaxOperTime : Option Int := none
  log : Bool := false
  returned : Bool := false
  decisions : List Decision := []
  runs : List Decision := []
  settled : List Settled := []

abbrev Op (α : Type) := Handler Table Call Answer α

structure Clock where
  now : Int
  random : Nat
  deriving DecidableEq, Repr

/-! ## The board -/

def checkLine (chessboard : Nat → Nat → Nat) (chess : Nat) (stepX stepY : Int) :
    Nat → Int → Int → Nat
  | 0, _, _ => 0
  | fuel + 1, x, y =>
      let x := x + stepX
      let y := y + stepY
      if x < 1 ∨ chessW < x ∨ y < 1 ∨ chessH < y then 0
      else if chessboard x.toNat y.toNat ≠ chess then 0
      else 1 + checkLine chessboard chess stepX stepY fuel x y

def checkWin (x y : Nat) (chessboard : Nat → Nat → Nat) : Bool :=
  let chess := chessboard x y
  ([(1, 0), (0, 1), (1, -1), (1, 1)] : List (Int × Int)).any fun (stepX, stepY) =>
    5 ≤ 1 + checkLine chessboard chess stepX stepY 15 x y +
      checkLine chessboard chess (-stepX) (-stepY) 15 x y

namespace Table

/-! ## Statuses -/

/-- `change_status(_t_num,"wait",1,next)`; an update takes half a second. -/
def waitFor (t : Table) (next : Status) : Table :=
  { t with status := .wait, nextStatus := some next, time := some 2 }

def newGame (t : Table) : Table :=
  { t with
    time := none
    curRace := t.curRace + 1
    firstSeat := 0
    settlementInfo := {}
    ready := perSeat 0
    pReady := 0
    curP := 0
    pRate := t.config.initRate
    pRaceTimes := perSeat 360
    chessboard := fun _ _ => 0
    operList := []
    status := .waitP }

def gameBegin (t : Table) : Table :=
  { t.waitFor .xhz with log := true }

def selectBlack (t : Table) (random : Nat) : Table :=
  { t with firstSeat := random }.waitFor .xq

def nextP (t : Table) : Nat :=
  if t.curP = 0 then t.firstSeat else if seatCount < t.curP + 1 then 1 else t.curP + 1

def xiaqiPermit (now : Int) : Op Unit := fun t =>
  let t := { t with curP := t.nextP, operBeginTime := some now }
  match t.pRaceTimes t.curP with
  | none => .raised t
  | some time => .done { t with curMaxOperTime := some (min time 30) } ()

/-! ## Settlement -/

def changeOnePlayerScore (seat : Option Nat) (score : Int) : Op Answer := fun t =>
  match seat.bind t.pSeatNumber with
  | some playerId => .call t (.modifyScore playerId score) fun a t => .done t a
  | none =>
      match t.config.backMoneyCmd with
      | none => .done t (.number score)
      | some cmd =>
          .call t (.backMoney cmd score) fun
            | .number s, t => .done t (.number s)
            | .other, t => .done t (.number score)

def stake (t : Table) : Int × Int :=
  match t.settlementInfo.type with
  | some .timeoutJu | some .timeoutBu | some .renshu | some .nor =>
      (t.config.initRate, t.config.initStake * t.config.initRate)
  | some .qiPanXiaMan => (0, 0)
  | none => (t.pRate, 0)

def setInfo (t : Table) (info : SettlementInfo) : Table := { t with settlementInfo := info }

def chargeLosers (ss : Int) : List Nat → (Nat → Int) → Int → Op ((Nat → Int) × Int)
  | [], lose, sum => fun t => .done t (lose, sum)
  | i :: is, lose, sum => fun t =>
      if t.settlementInfo.winSeat = some i then chargeLosers ss is lose sum t
      else
        match t.settlementInfo.score with
        | none => .raised t
        | some score =>
            let t := t.setInfo { t.settlementInfo with
              score := some (Function.update score i (some ss)) }
            (changeOnePlayerScore (some i) (-ss) t).bind fun deduct t =>
              -- the table `settlement_info` may be another one now
              match t.settlementInfo.score.bind (· i), deduct, t.settlementInfo.award with
              | some score, .number n, some award =>
                  let t := t.setInfo { t.settlementInfo with
                    award := some (Function.update award i (some (.number n))) }
                  chargeLosers ss is (Function.update lose i (lose i + (score + n))) (sum + n) t
              | _, _, _ => .raised t

def saveRaceOverLog : Op Unit := fun t =>
  if t.log then .call t .addRaceLog fun _ t => .done { t with log := false } () else .raised t

def payWinner (lose : Nat → Int) (sum : Int) : Op Unit := fun t =>
  let winSeat := t.settlementInfo.winSeat
  (changeOnePlayerScore winSeat |sum| t).bind fun deduct t =>
    match winSeat, t.settlementInfo.award with
    | some seat, some award =>
        let award := Function.update award seat (some deduct)
        let t := t.setInfo { t.settlementInfo with
          award := some award
          pRate := some t.pRate
          loseSurplus := some (Function.update lose seat 0) }
        let t := { t with settled := t.settled ++ [⟨⟨t.curRace, winSeat⟩, award⟩] }
        (saveRaceOverLog t).bind fun _ t =>
          if t.returned then .raised t else .done (t.waitFor .nextGame) ()
    | _, _ => .raised t

def settlement : Op Unit := fun t =>
  let (pRate, ss) := t.stake
  let t := { t with
    pRate
    runs := t.runs ++ [⟨t.curRace, t.settlementInfo.winSeat⟩]
    settlementInfo := { t.settlementInfo with
      award := some fun _ => none
      score := some fun _ => none } }
  (chargeLosers ss [1, 2] (fun _ => 0) 0 t).bind fun (lose, sum) => payWinner lose sum

def gameover : Op Unit := fun t =>
  .call t .tableFinish fun _ t => .done { t with returned := true } ()

def nextGame : Op Unit := fun t =>
  if t.curRace < t.config.raceCount then .done t.newGame ()
  else gameover { t with time := none, status := .gameover }

def changeStatus (status : Option Status) (clock : Clock) : Op Unit := fun t =>
  let t := { t with time := none }
  match status with
  | none => .done { t with nextStatus := none } ()
  | some .waitP => .done { t with status := .waitP } ()
  | some .wait => .done { t with status := .wait, nextStatus := none } ()
  | some .gameBegin => .done t.gameBegin ()
  | some .xhz => .done (t.selectBlack clock.random) ()
  | some .nextGame => nextGame { t with status := .nextGame }
  | some .xq => xiaqiPermit clock.now { t with status := .xq }
  | some .settlement => settlement { t with status := .settlement }
  | some .gameover => gameover { t with status := .gameover }

def update (clock : Clock) : Op Unit := fun t =>
  if t.returned then .done t ()
  else
    match t.time with
    | none => .done t ()
    | some time =>
        if time - 1 ≤ 0 then changeStatus t.nextStatus clock t
        else .done { t with time := some (time - 1) } ()

/-! ## Commands -/

def freeSeat (t : Table) : Option Nat := [1, 2].find? fun seat => t.pSeatNumber seat = none

def join (playerId : PlayerId) (seatNum : Option Nat) : Op Int := fun t =>
  if t.returned ∨ seatCount < t.pCount ∨ t.status ≠ .waitP ∨ t.playersJoinFlag playerId then
    .done t 1002
  else
    match seatNum.or t.freeSeat with
    | none => .done t 1000
    | some seat =>
        .done { t with
          playersJoinFlag := Function.update t.playersJoinFlag playerId true
          pSeatNumber := Function.update t.pSeatNumber seat (some playerId)
          pCount := t.pCount + 1 } 0

def readySeat (seat : Nat) : Op Int := fun t =>
  if t.returned then .raised t
  else if t.ready seat ≠ some 0 then .done t 0
  else
    let t := { t with ready := Function.update t.ready seat (some 1), pReady := t.pReady + 1 }
    if t.pReady = seatCount then .done t.gameBegin 0 else .done t 0

def decideGame (t : Table) (type : SettleType) (winSeat : Nat) : Table :=
  { t with
    settlementInfo := { t.settlementInfo with type := some type, winSeat := some winSeat }
    decisions := t.decisions ++ [⟨t.curRace, some winSeat⟩] }

def otherSeat (seat : Nat) : Nat := if seatCount < seat + 1 then 1 else seat + 1

def settleNow (t : Table) : Prog Table Call Answer Unit :=
  settlement { t with time := none, status := .settlement }

def xiaqiRenshu (seat : Nat) : Op Unit := fun t =>
  if t.returned then .raised t else settleNow (t.decideGame .renshu (otherSeat seat))

def xiaqiTimeout (seat : Nat) : Op Unit := fun t =>
  if t.returned then .raised t
  else
    match t.pRaceTimes seat, t.curMaxOperTime with
    | some time, some operTime =>
        let left := time - operTime
        let t := { t with pRaceTimes := Function.update t.pRaceTimes seat (some left) }
        settleNow (t.decideGame (if left < 1 then .timeoutJu else .timeoutBu) (otherSeat seat))
    | _, _ => .raised t

def posX (pos : Nat) : Nat := pos / 1000

def posY (pos : Nat) : Nat := pos % 1000 / 10

def putChess (t : Table) (seat pos : Nat) : Table :=
  let chess := if t.firstSeat = seat then 1 else 2
  { t with
    chessboard := Function.update t.chessboard (posX pos)
      (Function.update (t.chessboard (posX pos)) (posY pos) chess)
    operList := t.operList ++ [pos] }

def xiaqi (seat pos : Nat) (now : Int) : Op Int := fun t =>
  if t.returned then .raised t
  else if t.status ≠ .xq ∨ t.curP ≠ seat then .done t 1002
  else if posX pos < 1 ∨ chessW < posX pos ∨ posY pos < 1 ∨ chessH < posY pos then .done t 1001
  else if t.chessboard (posX pos) (posY pos) ≠ 0 then .done t 1001
  else
    let t := t.putChess seat pos
    match t.pRaceTimes seat, t.operBeginTime with
    | some time, some begin =>
        let t := { t with
          pRaceTimes := Function.update t.pRaceTimes seat (some (time - (now - begin))) }
        if checkWin (posX pos) (posY pos) t.chessboard then
          .done ((t.decideGame .nor seat).waitFor .settlement) 0
        else if t.operList.length = chessH * chessW then
          .done ((t.decideGame .qiPanXiaMan 0).waitFor .settlement) 0
        else .done (t.waitFor .xq) 0
    | _, _ => .raised t

def newTable (config : TableConfig) : Table := newGame { config }

end Table

inductive Event where
  | join (playerId : PlayerId) (seatNum : Option Nat)
  | ready (seat : Nat)
  | xiaqi (seat pos : Nat) (now : Int)
  | xiaqiRenshu (seat : Nat)
  | xiaqiTimeout (seat : Nat)
  | update (clock : Clock)

/-- The commands, and the loop `update`; without a result `none` is answered. -/
def handle : Event → Op (Option Int)
  | .join playerId seatNum => fun t => (Table.join playerId seatNum t).bind fun r s => .done s r
  | .ready seat => fun t => (Table.readySeat seat t).bind fun r s => .done s r
  | .xiaqi seat pos now => fun t => (Table.xiaqi seat pos now t).bind fun r s => .done s r
  | .xiaqiRenshu seat => fun t => (Table.xiaqiRenshu seat t).bind fun _ s => .done s none
  | .xiaqiTimeout seat => fun t => (Table.xiaqiTimeout seat t).bind fun _ s => .done s none
  | .update clock => fun t => (Table.update clock t).bind fun _ s => .done s none

end JyQipai.Gobang
