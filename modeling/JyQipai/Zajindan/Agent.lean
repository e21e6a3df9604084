import JyQipai.AssetManage.Account
import JyQipai.Lib.Owned

/-!
# Golden eggs

The requests of `zajindan_agent` that strike an egg, replace the eggs and replace the hammer.
The agent takes the price first and then asks the room.  The room, the shop and the other
changes of the assets are the surroundings.
-/

namespace JyQipai.Zajindan

open Lib AssetManage

inductive Lock where
  | kaijiang
  | replaceEggs
  | replaceHammer
  deriving DecidableEq, Repr

structure GameData where
  baseMoney : Int
  replaceMoney : Int
  eggsStatus : Option (List Int) := none
  openedEggNum : Int := 0
  deriving DecidableEq, Repr

structure GiftCondition where
  hammerGround : Int
  maxJingBi : Int
  propHammer : Int
  deriving DecidableEq, Repr

structure Award where
  eggNo : Int
  award : Int
  awardValue : Int
  deriving DecidableEq, Repr

inductive Response where
  | error (result : Int)
  | strike (result level eggNo : Int) (useType : Nat) (replaceMoney eggStatus : Int)
    (kaijiang : List Award)
  | eggs (level : Int) (awardList : List Int) (replaceMoney : Int)
  | hammer (level : Option Int)
  deriving DecidableEq, Repr

/-- What a request is to pay: a strike with one hammer or in coins, a strike in the mode of
the god of wealth, or new eggs. -/
inductive Price where
  | strike (level baseMoney : Int)
  | caishen (level : Nat)
  | eggs (money : Int)
  deriving DecidableEq, Repr

structure Spend where
  request : Option Nat
  assetType : AssetType
  value : Int
  deriving DecidableEq, Repr

/-- The data of the agent.  `requests` numbers the requests; `spent`, `owed` and `ended` are
the histories of the changes of the assets, of the prices when they were paid, and of the
answers. -/
structure Agent where
  gamingHammerId : Option Int := some 1
  hammerGameData : Int → Option GameData := fun _ => none
  canOpenEggNum : Int := 0
  caishenModel : Bool := false
  giftCondition : Int → Option GiftCondition := fun _ => none
  assetDatas : AssetType → Int := fun _ => 0
  actionLock : Lock → Bool := fun _ => false
  requests : Nat := 0
  spent : List Spend := []
  owed : List (Nat × Price) := []
  ended : List (Nat × Response) := []

inductive Call where
  | playerTriggerCondition (giftBagId : Int)
  | zaJinDan (level eggNo : Int)
  | zjdCaishenMode (level : Nat) (eggNo : Int)
  | replaceEggs (level : Int) (isSpendMoney : Bool)
  | zjdReplaceHammer (level : Int)
  deriving DecidableEq, Repr

/-- `number` is an error of the room, `callFail` the result of a call whose service is not
found, and `error` is raised in the agent. -/
inductive Answer where
  | giftShow (n : Int)
  | number (code : Int)
  | callFail
  | struck (gameData : GameData) (kaijiang : List Award)
  | caishen (kaijiang : List Award)
  | eggs (gameData : GameData) (awardList : List Int)
  | hammer (gamingHammerId : Int)
  | error
  deriving DecidableEq, Repr

abbrev Op (α : Type) := Handler Agent Call Answer α

def hammerOf (level : Int) : AssetType := "prop_hammer_" ++ toString level

def eggAt (eggs : List Int) (eggNo : Int) : Option Int :=
  if 1 ≤ eggNo then eggs[(eggNo - 1).toNat]? else none

namespace Agent

def setLock (s : Agent) (lock : Lock) (b : Bool) : Agent :=
  { s with actionLock := Function.update s.actionLock lock b }

/-- `change_asset_multi` for one asset; nothing is changed by zero. -/
def changeAsset (s : Agent) (request : Option Nat) (assetType : AssetType) (value : Int) : Agent :=
  if value = 0 then s
  else
    { s with
      assetDatas := Function.update s.assetDatas assetType (s.assetDatas assetType + value)
      spent := s.spent ++ [⟨request, assetType, value⟩] }

def owe (s : Agent) (request : Nat) (price : Price) : Agent :=
  { s with owed := s.owed ++ [(request, price)] }

def setGame (s : Agent) (level : Int) (data : Option GameData) : Agent :=
  { s with hammerGameData := Function.update s.hammerGameData level data }

def verifyCoins (s : Agent) (value : Int) : Int :=
  if s.assetDatas "jing_bi" < value then assetError "jing_bi" else 0

def useTypeOf (money hammers : Int) : Nat :=
  if 0 < money ∧ 0 < hammers then 2 else if 0 < money then 0 else if 0 < hammers then 1 else 0

/-! ## Paying -/

/-- `zjd_deduct_money`: the number of an error, or what was paid with.  Where it fails it
releases the lock. -/
def zjdDeductMoney (n : Nat) (level count baseMoney : Int) (s : Agent) :
    Except Int Nat × Agent :=
  let has := s.assetDatas (hammerOf level)
  let hammerNum := if count ≤ has then count else has
  let needMoney := baseMoney * (count - hammerNum)
  if 0 < needMoney ∧ s.verifyCoins needMoney ≠ 0 then
    (.error (s.verifyCoins needMoney), s.setLock .kaijiang false)
  else
    let s := if 0 < hammerNum then s.changeAsset (some n) (hammerOf level) (-hammerNum) else s
    let s := if 0 < needMoney then s.changeAsset (some n) "jing_bi" (-needMoney) else s
    (.ok (useTypeOf needMoney hammerNum), s)

def caishenMoney (level : Nat) : Int :=
  ([100, 1000, 10000, 20000, 40000, 80000] : List Int).getD (level - 1) 0

def hammerPrice (i : Nat) : Int := ([100, 1000, 10000, 100000] : List Int).getD (i - 1) 0

def dikouHammers (s : Agent) : List Nat → Int → List (Nat × Int) × Int
  | [], left => ([], left)
  | i :: is, left =>
      let count := min (left / hammerPrice i) (s.assetDatas (hammerOf i))
      if 0 < count then
        let (rest, left) := dikouHammers s is (left - count * hammerPrice i)
        ((i, count) :: rest, left)
      else dikouHammers s is left

def zjdCaishenDeductMoney (n : Nat) (level : Nat) (s : Agent) : Except Int Nat × Agent :=
  let all := caishenMoney level * 19
  let (hammers, needMoney) := s.dikouHammers [4, 3, 2, 1] all
  if 0 < needMoney ∧ s.verifyCoins needMoney ≠ 0 then
    (.error (s.verifyCoins needMoney), s.setLock .kaijiang false)
  else
    let s := hammers.foldl (fun s (i, count) =>
      s.changeAsset (some n) (hammerOf i) (-count)) s
    let s := if 0 < needMoney then s.changeAsset (some n) "jing_bi" (-needMoney) else s
    (.ok (useTypeOf needMoney (all - needMoney)), s)

/-! ## Requests -/

def realLevel (eggNo : Int) : Nat := ((eggNo - 101) / 2).toNat + 1

def zjdCaishenModelKaijiang (n : Nat) (level eggNo : Int) : Op Response := fun s =>
  if s.actionLock .kaijiang then .done s (.error 1008)
  else
    let real := realLevel eggNo
    match zjdCaishenDeductMoney n real (s.setLock .kaijiang true) with
    | (.error code, s) => .done s (.error code)
    | (.ok useType, s) =>
        .call (s.owe n (.caishen real)) (.zjdCaishenMode real eggNo) fun
          | .number code, s => .done (s.setLock .kaijiang false) (.error code)
          | .callFail, s => .done (s.setLock .kaijiang false) (.error 1000)
          | .caishen kaijiang, s =>
              .done (s.setLock .kaijiang false) (.strike 0 level eggNo useType 0 (-1) kaijiang)
          | _, s => .raised s

def giftBagOf (level : Int) : Option Int :=
  if level = 3 then some 36 else if level = 4 then some 37 else none

/-- `zajindan_activity_condtion`: the gift bag whose condition is fulfilled. -/
def activityCondition (s : Agent) (level : Int) : Option Int :=
  (giftBagOf level).filter fun id =>
    match s.giftCondition id with
    | none => false
    | some c => level = c.hammerGround ∧ s.assetDatas "jing_bi" < c.maxJingBi ∧
        s.assetDatas (hammerOf level) ≤ c.propHammer

/-- The test of `zjd_kaijiang` for the egg; without eggs it raises an error. -/
def eggClosed (s : Agent) (level eggNo : Int) : Option Bool :=
  match s.hammerGameData level with
  | none => some false
  | some data => data.eggsStatus.map fun eggs =>
      match eggAt eggs eggNo with
      | none => false
      | some status => status ≠ -1 ∧ data.openedEggNum < s.canOpenEggNum

def strike (n : Nat) (level eggNo : Int) (giftShow : Bool) : Op Response := fun s =>
  match s.hammerGameData level with
  | none => .raised s
  | some data =>
      match zjdDeductMoney n level 1 data.baseMoney s with
      | (.error code, s) => .done s (.error (if giftShow then 4601 else code))
      | (.ok useType, s) =>
          .call (s.owe n (.strike level data.baseMoney)) (.zaJinDan level eggNo) fun
            | .number code, s => .done (s.setLock .kaijiang false) (.error code)
            | .struck data kaijiang, s =>
                match data.eggsStatus with
                | none => .raised s
                | some eggs =>
                    .done ((s.setGame level (some data)).setLock .kaijiang false)
                      (.strike (if giftShow then 4600 else 0) level eggNo useType
                        data.replaceMoney ((eggAt eggs eggNo).getD 0) kaijiang)
            | _, s => .raised s

def zjdKaijiang (n : Nat) (level eggNo : Option Int) : Op Response := fun s =>
  match level, eggNo with
  | some level, some eggNo =>
      if s.gamingHammerId ≠ some level then .done s (.error 1001)
      else if s.caishenModel ∧ 100 < eggNo ∧ eggNo < 113 then
        zjdCaishenModelKaijiang n level eggNo s
      else
        match s.eggClosed level eggNo with
        | none => .raised s
        | some false => .done s (.error 1003)
        | some true =>
            if s.actionLock .kaijiang then .done s (.error 1008)
            else
              match s.activityCondition level with
              | some giftBagId =>
                  .call (s.setLock .kaijiang true) (.playerTriggerCondition giftBagId) fun
                    | .giftShow k, s => strike n level eggNo (k = 1) s
                    | _, s => .raised s
              | none => strike n level eggNo false (s.setLock .kaijiang true)
  | _, _ => .done s (.error 1001)

/-- The payment of `zjd_replace_eggs`: the number of an error, or whether coins were taken. -/
def payEggs (n : Nat) (data : GameData) (s : Agent) : Except Int Bool × Agent :=
  match data.eggsStatus with
  | none => (.ok false, s.owe n (.eggs 0))
  | some _ =>
      if s.verifyCoins data.replaceMoney ≠ 0 then
        (.error (s.verifyCoins data.replaceMoney), s.setLock .replaceEggs false)
      else
        (.ok (0 < data.replaceMoney),
          (s.changeAsset (some n) "jing_bi" (-data.replaceMoney)).owe n
            (.eggs data.replaceMoney))

def zjdReplaceEggs (n : Nat) (level : Option Int) : Op Response := fun s =>
  match level with
  | none => .done s (.error 1001)
  | some level =>
      if s.gamingHammerId ≠ some level then .done s (.error 1001)
      else if s.actionLock .replaceEggs then .done s (.error 1008)
      else
        match s.hammerGameData level with
        | none => .raised (s.setLock .replaceEggs true)
        | some data =>
            match payEggs n data (s.setLock .replaceEggs true) with
            | (.error code, s) => .done s (.error code)
            | (.ok isSpendMoney, s) =>
                .call s (.replaceEggs level isSpendMoney) fun
                  | .number code, s => .done (s.setLock .replaceEggs false) (.error code)
                  | .callFail, s => .raised (s.setGame level none)
                  | .eggs data awardList, s =>
                      .done ((s.setGame level (some data)).setLock .replaceEggs false)
                        (.eggs level awardList data.replaceMoney)
                  | _, s => .raised s

def zjdReplaceHammer (level : Option Int) : Op Response := fun s =>
  match level with
  | none => .done s (.error 1001)
  | some level =>
      if 4 < level then .done s (.error 1001)
      else if s.actionLock .replaceHammer then .done s (.error 1008)
      else
        .call (s.setLock .replaceHammer true) (.zjdReplaceHammer level) fun
          | .number code, s => .done (s.setLock .replaceHammer false) (.error code)
          | .callFail, s =>
              .done ({ s with gamingHammerId := none }.setLock .replaceHammer false)
                (.hammer none)
          | .hammer id, s =>
              .done ({ s with gamingHammerId := some id }.setLock .replaceHammer false)
                (.hammer (some id))
          | _, s => .raised s

def finish (s : Agent) (n : Nat) (r : Response) : Agent := { s with ended := s.ended ++ [(n, r)] }

end Agent

inductive Event where
  | zjdKaijiang (level eggNo : Option Int)
  | zjdReplaceEggs (level : Option Int)
  | zjdReplaceHammer (level : Option Int)
  | multiAssetOnChangeMsg (assetType : AssetType) (value : Int)

def request (op : Nat → Op Response) : Op Unit := fun s =>
  (op s.requests { s with requests := s.requests + 1 }).bind fun r t =>
    .done (t.finish s.requests r) ()

def handle : Event → Op Unit
  | .zjdKaijiang level eggNo => request fun n => Agent.zjdKaijiang n level eggNo
  | .zjdReplaceEggs level => request fun n => Agent.zjdReplaceEggs n level
  | .zjdReplaceHammer level => request fun _ => Agent.zjdReplaceHammer level
  | .multiAssetOnChangeMsg assetType value => fun s =>
      .done (s.changeAsset none assetType value) ()

end JyQipai.Zajindan
