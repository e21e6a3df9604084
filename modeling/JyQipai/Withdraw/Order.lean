import JyQipai.Lib.Owned
import JyQipai.AssetManage.Account

/-!
# Withdrawals

A player withdraws cash: the agent has an order created by the data service, calls the
web server, and deducts the money when that call was answered.  The status of the
order is changed at the data service, which refunds the money of an order that has
failed.  Calls to the data service are requests and replies in flight, and the
changes of assets that the agent sends are in `mail` until they arrive.
-/

namespace JyQipai.Withdraw

open JyQipai.Lib JyQipai.AssetManage

/-- The day, the number on that day and the random characters of a `withdraw_id`. -/
structure OrderId where
  day : Nat
  index : Nat
  random : String
  deriving DecidableEq, Repr

/-- `withdraw_status`; all but `init` are in the table of the same name. -/
inductive Status where
  | init
  | error
  | call
  | create
  | fail
  | complete
  deriving DecidableEq, Repr

structure Order where
  id : OrderId
  money : Int
  assetType : Option AssetType
  status : Status
  deriving DecidableEq, Repr

/-- A change of the player's cash, with its `change_id`. -/
structure Booking where
  changeId : Option OrderId
  value : Int
  deriving DecidableEq, Repr

/-- The agent of the player and the part of the data service that is about the
player.  `cash` is the agent's own record; `ledger` has the changes that the data
service has made.  `refused` has the orders of requests that have ended with an error. -/
structure State where
  cash : Option Int := some 0
  withdrawCashLock : Bool := false
  withdrawMoneyLock : Bool := false
  forbidWithdrawCash : Bool := false
  withdrawUrl : Bool := true
  mail : List Booking := []
  user : Bool := true
  playerCash : Int := 0
  today : Nat := 0
  lastWithdrawDate : Option Nat := none
  lastWithdrawTodayIndex : Nat := 0
  withdrawDatas : List Order := []
  ledger : List Booking := []
  refused : List OrderId := []

/-- What a request waits for.  `arrival` and `reply` are the two ways of a call to the
data service. -/
inductive Ask where
  | queryPlayerWithdrawCashStatus (money : Int)
  | getPlayerVerifyData
  | arrival
  | reply
  | webRequest (id : OrderId)
  | playerWithdrawCash (money : Int)
  deriving DecidableEq, Repr

inductive Answer where
  | cashStatus (status canWithdrawMoney : Int)
  | verifyData (openid : Option String)
  | go (random : String)
  | web (ok : Bool)
  deriving DecidableEq, Repr

def Valid : Ask → Answer → Prop
  | .queryPlayerWithdrawCashStatus _, .cashStatus .. => True
  | .getPlayerVerifyData, .verifyData _ => True
  | .arrival, .go _ | .reply, .go _ | .playerWithdrawCash _, .go _ => True
  | .webRequest _, .web _ => True
  | _, _ => False

instance decidableValid (q : Ask) (a : Answer) : Decidable (Valid q a) := by
  cases q <;> cases a <;> first | exact .isTrue trivial | exact .isFalse id

abbrev Op (α : Type) := Handler State Ask Answer α

namespace State

/-! ## The data service -/

def changeAsset (s : State) (b : Booking) : State :=
  { s with
    playerCash := s.playerCash + b.value
    ledger := s.ledger ++ [b] }

def deliver (s : State) : State :=
  match s.mail with
  | [] => s
  | b :: mail => { s.changeAsset b with mail := mail }

def nextIndex (s : State) : Nat :=
  if s.lastWithdrawDate = some s.today then s.lastWithdrawTodayIndex + 1 else 1

def insertOrder (s : State) (random : String) (assetType : Option AssetType) (money : Int) :
    State :=
  { s with
    lastWithdrawDate := some s.today
    lastWithdrawTodayIndex := s.nextIndex
    withdrawDatas := ⟨⟨s.today, s.nextIndex, random⟩, money, assetType, .init⟩ ::
      s.withdrawDatas.filter (·.id ≠ ⟨s.today, s.nextIndex, random⟩) }

def createWithdrawId (s : State) (random : String) (money : Int) :
    Except Int OrderId × State :=
  if ¬ s.user then (.error 2251, s)
  else if money ≤ 0 then (.error 1003, s)
  else if s.playerCash < money then (.error 2261, s)
  else (.ok ⟨s.today, s.nextIndex, random⟩, s.insertOrder random (some "cash") money)

def setStatus (s : State) (o : Order) (st : Status) : State :=
  let s :=
    if st = .fail ∧ o.assetType ≠ none then s.changeAsset ⟨some o.id, o.money⟩ else s
  { s with
    withdrawDatas := s.withdrawDatas.map fun x =>
      if x.id = o.id then { x with status := st } else x }

/-- `change_withdraw_status`, with the error code if it is refused.  `none` is a
status that no table has. -/
def changeWithdrawStatus (id : OrderId) (st : Option Status) : Op Int := fun s =>
  match s.withdrawDatas.find? (·.id = id) with
  | none => .done s 2262
  | some o =>
      match st with
      | none | some .init => .done s 2233
      | some st =>
          if o.status = .complete ∨ o.status = .fail then .done s 2263
          -- the message of a completed order reads `DATA`, which the file does not have
          else if st = .complete then .raised s
          else .done (s.setStatus o st) 0

/-! ## The agent -/

def changeCash (s : State) (b : Booking) : State :=
  { s with
    cash := some (s.cash.getD 0 + b.value)
    mail := s.mail ++ [b] }

def refuse (s : State) (id : Option OrderId) : State :=
  { s with
    withdrawCashLock := false
    refused := id.toList ++ s.refused }

def lockCash (s : State) : State := { s with withdrawCashLock := true }

def unlockCash (s : State) : State := { s with withdrawCashLock := false }

def lockMoney (s : State) : State := { s with withdrawMoneyLock := true }

def unlockMoney (s : State) : State := { s with withdrawMoneyLock := false }

def requestWeb (id : OrderId) : Op (Int × Option OrderId) := fun s =>
  .call s (.webRequest id) fun
    | .web ok, s => .done s.unlockMoney (if ok then 0 else 2406, some id)
    | _, s => .raised s

def requestOrder (money : Int) : Op (Int × Option OrderId) := fun s =>
  .call s .arrival fun
    | .go random, s =>
        match s.createWithdrawId random money with
        | (.ok id, s) => .call s .reply fun _ s => requestWeb id s
        | (.error code, s) => .call s .reply fun _ s => .done s.unlockMoney (code, none)
    | _, s => .raised s

def withdrawMoney (money : Int) : Op (Int × Option OrderId) := fun s =>
  if s.forbidWithdrawCash then .done s (2403, none)
  else if ¬ s.withdrawUrl then .done s (2405, none)
  else if s.withdrawMoneyLock then .done s (1008, none)
  else if money < 100 then .done s (2264, none)
  else
    .call s.lockMoney .getPlayerVerifyData fun
      | .verifyData none, s => .done s.unlockMoney (2265, none)
      | .verifyData (some _), s => requestOrder money s
      | _, s => .raised s

/-- The rest of `withdraw_cash`, once `withdraw_money` has returned. -/
def finishWithdraw (money : Int) (code : Int) (id : Option OrderId) : Op Int := fun s =>
  if code = 0 then
    .call (s.changeCash ⟨id, -money⟩) (.playerWithdrawCash money) fun _ s =>
      .done s.unlockCash 0
  else .done (s.refuse id) code

def withdrawCash (cashType : Option Int) : Op Int := fun s =>
  if cashType ≠ some 1 then .done s 1001
  else if s.withdrawCashLock then .done s 1008
  else
    match s.cash with
    | none => .raised s.lockCash
    | some money =>
        .call s.lockCash (.queryPlayerWithdrawCashStatus money) fun
          | .cashStatus status can, s =>
              if status ≠ 0 then .done s.unlockCash status
              else (withdrawMoney can s).bind fun (code, id) => finishWithdraw can code id
          | _, s => .raised s

end State

/-! ## Runs -/

/-- What comes from outside: requests of the player, other changes of the cash, by the
agent or by the data service, calls that change the status of an order, messages that
arrive, and the configuration and the calendar. -/
inductive Event where
  | withdrawCash (cashType : Option Int)
  | changeCash (value : Int)
  | onChange (value : Int)
  | changeAsset (value : Int)
  | changeWithdrawStatus (id : OrderId) (st : Option Status)
  | deliver
  | config (forbidWithdrawCash withdrawUrl : Bool)
  | days (n : Nat)

def handle : Event → Op Int
  | .withdrawCash cashType, s => s.withdrawCash cashType
  | .changeCash value, s => .done (s.changeCash ⟨none, value⟩) 0
  | .onChange value, s => .done { s with cash := some (s.cash.getD 0 + value) } 0
  | .changeAsset value, s => .done (s.changeAsset ⟨none, value⟩) 0
  | .changeWithdrawStatus id st, s => State.changeWithdrawStatus id st s
  | .deliver, s => .done s.deliver 0
  | .config forbid url, s =>
      .done { s with
        forbidWithdrawCash := forbid
        withdrawUrl := url } 0
  | .days n, s => .done { s with today := s.today + n } 0

end JyQipai.Withdraw
