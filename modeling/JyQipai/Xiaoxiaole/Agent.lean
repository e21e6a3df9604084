import JyQipai.Lib.Owned
import JyQipai.Xiaoxiaole.Lottery

/-!
# The match-3 game of a player

The requests of `xiaoxiaole_agent`, and `kaijiang` of the room they ask.  The agent tests the
coins, asks the room, and takes the stake when the room has answered.  The other changes of
the coins are the surroundings.
-/

namespace JyQipai.Xiaoxiaole

open Lib

abbrev Bets := List Int64

inductive Lock where
  | kaijiang
  | enterGame
  | quitGame
  deriving DecidableEq, Repr

/-- `xiaoxiaole_game_data`, whose status is always `gaming`. -/
structure GameData where
  roomId : Option Nat := none
  tableId : Option Nat := none
  lastAwardRate : Option Int := some 0
  lastAwardMoney : Option Int := some 0
  kaijiangMaps : Option String := none
  luckyMaps : Option String := none
  deriving DecidableEq, Repr

/-- What `kaijiang` of the room returns: the outcome of the lottery and the award for it. -/
structure RoomRet where
  kaijiang : Kaijiang
  awardMoney : Int
  deriving DecidableEq, Repr

inductive LotteryAnswer where
  | number (code : Int)
  | kaijiang (k : Kaijiang)
  deriving DecidableEq, Repr

inductive Call where
  | kaijiang (tableId : Nat) (bets : Bets) (totalBetMoney betMoney : Int)
  | createRoom
  | quitRoom
  deriving DecidableEq, Repr

/-- `callFail` is the result of a call that finds no service or whose service raises an
error. -/
inductive Answer where
  | number (code : Int)
  | callFail
  | ret (r : RoomRet)
  | room (code : Int) (roomId tableId : Option Nat)
  deriving DecidableEq, Repr

inductive Response where
  | result (code : Int)
  | kaijiang (kaijiangMaps luckyMaps : Option String) (awardRate awardMoney : Option Int)
  deriving DecidableEq, Repr

/-- The data of the agent.  `answered`, `spent` and `changed` are the histories of the answers
of the room, of the stakes taken, and of the other changes of the coins. -/
structure Agent where
  allData : Option GameData := none
  gameLock : Option String := none
  coins : Int := 0
  actionLock : Lock → Bool := fun _ => false
  answered : List (Bets × Answer) := []
  spent : List Int := []
  changed : List Int := []

abbrev Op := Handler Agent Call Answer Response

/-! ## The room -/

def awardMoney (realAwardRate betMoney : Int) : Int := (realAwardRate * betMoney + 5) / 10

/-- `CMD.kaijiang`: `locked` is its action lock, and `seated` whether there is a table. -/
def roomKaijiang (locked seated : Bool) (bets : Bets) (betMoney : Int) :
    LotteryAnswer → Answer
  | answer =>
      if locked then .number 1008
      else if !seated then .number 1003
      else if bets = [] then .number 1003
      else
        match answer with
        | .number code => .number code
        | .kaijiang k => .ret ⟨k, awardMoney k.realAwardRate betMoney⟩

namespace Agent

def setLock (s : Agent) (lock : Lock) (b : Bool) : Agent :=
  { s with actionLock := Function.update s.actionLock lock b }

def note (s : Agent) (bets : Bets) (a : Answer) : Agent :=
  { s with answered := s.answered ++ [(bets, a)] }

def spend (s : Agent) (money : Int) : Agent :=
  { s with
    coins := s.coins - money
    spent := s.spent ++ [-money] }

/-- `multi_asset_on_change_msg`, and what other requests take. -/
def change (s : Agent) (value : Int) : Agent :=
  { s with
    coins := s.coins + value
    changed := s.changed ++ [value] }

/-! ## Requests -/

def kaijiangVerifyVec : List Int :=
  [500, 1000, 2000, 4000, 8000, 16000, 32000, 64000, 128000, 256000, 512000, 1024000, 2048000]

def needMoney : Bets → Option Int64 → Int64 → Option Int64
  | [], _, need => some need
  | money :: bets, last, need =>
      if last.all (· = money) then needMoney bets (some money) (need + money) else none

def verifyBets (bets : Bets) : Except Int Int :=
  match needMoney bets none 0 with
  | none => .error 1001
  | some need =>
      if need = 0 then .error 1002
      else if need.toInt ∈ kaijiangVerifyVec then .ok need.toInt
      else .error 1001

variable (createLucky : Board → Int → List Lucky → Option (String × String))

/-- Behind the room's answer.  The result of a call that has failed is a string, and its
fields are empty. -/
def answerKaijiang (bets : Bets) (need : Int) (a : Answer) (s : Agent) :
    Prog Agent Call Answer Response :=
  let s := s.note bets a
  match a with
  | .number code => .done (s.setLock .kaijiang false) (.result code)
  | .ret r =>
      let s := s.spend need
      match createLucky r.kaijiang.xcMap r.kaijiang.awardRate r.kaijiang.luckyData,
        s.allData with
      | some (maps, lucky), some data =>
          .done ({ s with
              allData := some { data with
                lastAwardRate := some r.kaijiang.awardRate
                lastAwardMoney := some r.awardMoney
                kaijiangMaps := some maps
                luckyMaps := some lucky } }.setLock .kaijiang false)
            (.kaijiang (some maps) (some lucky) (some r.kaijiang.awardRate) (some r.awardMoney))
      | _, _ => .raised s
  | _ =>
      let s := s.spend need
      match s.allData with
      | some data =>
          .done ({ s with
              allData := some { data with
                lastAwardRate := none
                lastAwardMoney := none
                kaijiangMaps := none
                luckyMaps := some "" } }.setLock .kaijiang false)
            (.kaijiang none (some "") none none)
      | none => .raised s

def xxlKaijiang (bets : Option Bets) : Op := fun s =>
  match bets with
  | none => .done s (.result 1001)
  | some bets =>
      if s.actionLock .kaijiang then .done s (.result 1008)
      else
        match s.allData.bind GameData.roomId, s.allData.bind GameData.tableId with
        | some _, some tableId =>
            match verifyBets bets with
            | .error code => .done s (.result code)
            | .ok need =>
                if s.coins < need then .done s (.result 1023)
                else
                  .call (s.setLock .kaijiang true)
                    (.kaijiang tableId bets need (need / bets.length))
                    (answerKaijiang createLucky bets need)
        | _, _ => .done s (.result 1002)

def xxlEnterGame : Op := fun s =>
  if s.actionLock .enterGame then .done s (.result 1008)
  else if s.gameLock.isSome ∨ (s.allData.bind GameData.roomId).isSome ∨
      (s.allData.bind GameData.tableId).isSome then .done s (.result 1005)
  else
    .call ({ s with
        gameLock := some "xiaoxiaole_game"
        allData := some {} }.setLock .enterGame true) .createRoom fun a s =>
      match a, s.allData with
      | .room code roomId tableId, some data =>
          .done ({ s with
              allData := some { data with
                roomId := roomId
                tableId := tableId } }.setLock .enterGame false) (.result code)
      | _, _ => .raised s

def xxlQuitGame : Op := fun s =>
  if s.actionLock .quitGame then .done s (.result 1008)
  else if s.allData = none then .done s (.result 0)
  else
    .call (s.setLock .quitGame true) .quitRoom fun a s =>
      match a with
      | .number code =>
          .done ({ s with
              gameLock := if s.gameLock = some "xiaoxiaole_game" then none else s.gameLock
              allData := none }.setLock .quitGame false) (.result code)
      | _ => .raised s

end Agent

inductive Event where
  | xxlKaijiang (bets : Option Bets)
  | xxlEnterGame
  | xxlQuitGame
  | change (value : Int)

def handle (createLucky : Board → Int → List Lucky → Option (String × String)) : Event → Op
  | .xxlKaijiang bets => Agent.xxlKaijiang createLucky bets
  | .xxlEnterGame => Agent.xxlEnterGame
  | .xxlQuitGame => Agent.xxlQuitGame
  | .change value => fun s => .done (s.change value) (.result 0)

end JyQipai.Xiaoxiaole
