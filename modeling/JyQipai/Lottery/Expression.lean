import JyQipai.AssetManage.Purchase
import JyQipai.Lib.Float

/-!
# Lotteries of expressions

The two lotteries for expressions of `lottery_center_service`.  Quotients and products with
fractions are rounded in a number format.  Each call is given the results of its draws.
-/

namespace JyQipai.Lottery

open Lib AssetManage

abbrev PlayerId := String

/-- Two numbers such as those of `"1~3"`. -/
structure Bound where
  min : Int
  max : Int
  deriving DecidableEq, Repr

/-- The row of `raw_config` for one lottery. -/
structure RawRow where
  cycle : Int
  itemCount : Bound
  assetType : AssetType
  assetValue : Bound
  items : List String
  itemsNum : List Int
  deriving DecidableEq, Repr

structure Item where
  item : String
  num : Option Int
  deriving DecidableEq, Repr

/-- `lottery_config.expression_666`, and that for the other lottery. -/
structure Expression where
  cycle : Int
  itemCount : Bound
  assetType : AssetType
  assetValue : Bound
  items : List Item
  deriving DecidableEq, Repr

structure PlayerData where
  playerId : PlayerId
  lotteryTime : Int := 0
  lotteryAsset : Int := 0
  lotteryItemCount : Int
  lotteryAssetTime : Int := 0
  deriving DecidableEq, Repr

structure Items where
  expression : List (Nat × Option Int) := []
  assetData : List (AssetType × Option Int) := []
  deriving DecidableEq, Repr

/-- The result of a call, without items when an error is raised, and the message
`update_player_lottery_data` that it sends. -/
structure Outcome where
  items : Option Items
  update : Option PlayerData := none
  deriving DecidableEq, Repr

/-- `lottery_config` and `player_lottery_data`. -/
structure Center where
  expression666 : Expression
  expressionShuitong : Expression
  playerLotteryData : PlayerId → Option PlayerData := fun _ => none

/-- The results of `math.random` in a call. -/
abbrev Draws := Nat → Nat

def Draws.random (draws : Draws) (k : Nat) (m n : Int) : Option Int :=
  if m ≤ n then some (m + draws k % (n - m + 1)) else none

def RawRow.load (r : RawRow) : Expression where
  cycle := r.cycle
  itemCount := r.itemCount
  assetType := r.assetType
  assetValue := r.assetValue
  items := r.items.zipIdx.map fun (d, i) => ⟨d, r.itemsNum[i]?⟩

def Center.loadConfig (s : Center) (raw666 rawShuitong : RawRow) : Center :=
  { s with
    expression666 := raw666.load
    expressionShuitong := rawShuitong.load }

variable (F : NumFormat)

def assetAve (cfg : Expression) (assetCount : Int) : Option Int :=
  if assetCount = 0 then none
  else
    let sum : Int := cfg.assetValue.min + cfg.assetValue.max
    some ⌈F.div (F.mul sum (F.rnd (1 / 2))) assetCount⌉

/-- The value of the assets of one draw: `cc` draws for assets are left. -/
def assetOf (cfg : Expression) (pld : PlayerData) (assetCount cc : Int) (draws : Draws)
    (k : Nat) : Option (Int × Nat) :=
  (assetAve F cfg assetCount).bind fun ave =>
    (draws.random k ⌈F.mul ave (F.rnd (1 / 5))⌉ ⌈F.mul ave (F.rnd (9 / 5))⌉).bind fun r =>
      if cc ≤ 1 then
        (draws.random (k + 1) (max (pld.lotteryAsset + 1) cfg.assetValue.min)
          cfg.assetValue.max).map fun fr => (fr - pld.lotteryAsset, k + 2)
      else
        let most := cfg.assetValue.max - (cc - 1) * 10
        some (if most < pld.lotteryAsset + r then most - pld.lotteryAsset else r, k + 1)

/-- The item of one draw; `expressionId` is the expression of the lottery. -/
def itemOf (cfg : Expression) (expressionId : Nat) (items : Items) (draws : Draws) (k : Nat) :
    Option (Items × Nat) :=
  (draws.random k 1 cfg.items.length).bind fun index =>
    cfg.items[(index - 1).toNat]?.bind fun it =>
      if isAsset it.item then
        some ({ items with assetData := items.assetData ++ [(it.item, it.num)] }, k + 1)
      else if it.item = "expression" then
        some ({ items with expression := items.expression ++ [(expressionId, it.num)] }, k + 1)
      else none

def PlayerData.endCycle (pld : PlayerData) (cycle : Int) : PlayerData :=
  let pld := { pld with lotteryTime := pld.lotteryTime + 1 }
  if cycle ≤ pld.lotteryTime then
    { pld with lotteryTime := 0, lotteryAsset := 0, lotteryAssetTime := 0 }
  else pld

def oneLottery (cfg : Expression) (expressionId : Nat) (assetCount : Int) (draws : Draws)
    (pld : PlayerData) (items : Items) (k : Nat) : Option (PlayerData × Items × Nat) :=
  let cc := assetCount - pld.lotteryAssetTime
  let rc := cfg.cycle - pld.lotteryTime
  (draws.random k 1 rc).bind fun n =>
    if n ≤ cc then
      (assetOf F cfg pld assetCount cc draws (k + 1)).map fun (r, k) =>
        ({ pld with
            lotteryAsset := pld.lotteryAsset + r
            lotteryAssetTime := pld.lotteryAssetTime + 1 }.endCycle cfg.cycle,
          { items with assetData := items.assetData ++ [(cfg.assetType, some r)] }, k)
    else
      (itemOf cfg expressionId items draws (k + 1)).map fun (items, k) =>
        (pld.endCycle cfg.cycle, items, k)

def lotteries (cfg : Expression) (expressionId : Nat) (assetCount : Int) (draws : Draws) :
    Nat → PlayerData → Items → Nat → PlayerData × Option Items
  | 0, pld, items, _ => (pld, some items)
  | n + 1, pld, items, k =>
      match oneLottery F cfg expressionId assetCount draws pld items k with
      | none => (pld, none)
      | some (pld, items, k) => lotteries cfg expressionId assetCount draws n pld items k

/-- The two lotteries with their configuration and expression: `time` draws for a player.  A
whole cycle at once has a record of its own. -/
def Center.lotteryExpression (s : Center) (cfg : Expression) (expressionId : Nat)
    (playerId : PlayerId) (time : Nat) (draws : Draws) : Outcome × Center :=
  match draws.random 0 cfg.itemCount.min cfg.itemCount.max with
  | none => (⟨none, none⟩, s)
  | some count =>
      let defultData : PlayerData := { playerId, lotteryItemCount := count }
      let isCycle := (time : Int) = cfg.cycle
      let pld :=
        if isCycle then defultData else (s.playerLotteryData playerId).getD defultData
      let (pld, items) :=
        lotteries F cfg expressionId (cfg.cycle - pld.lotteryItemCount) draws time pld {} 1
      if isCycle then (⟨items, none⟩, s)
      else
        (⟨items, items.map fun _ => pld⟩,
          { s with
            playerLotteryData := Function.update s.playerLotteryData playerId (some pld) })

def Center.lotteryExpression666 (s : Center) (playerId : PlayerId) (time : Nat)
    (draws : Draws) : Outcome × Center :=
  s.lotteryExpression F s.expression666 54 playerId time draws

def Center.lotteryExpressionShuitong (s : Center) (playerId : PlayerId) (time : Nat)
    (draws : Draws) : Outcome × Center :=
  s.lotteryExpression F s.expression666 56 playerId time draws

inductive Kind where
  | expression666
  | expressionShuitong
  deriving DecidableEq, Repr

inductive Event where
  | lottery (kind : Kind) (playerId : PlayerId) (time : Nat) (draws : Draws)
  | loadConfig (raw666 rawShuitong : RawRow)

def Center.step (s : Center) : Event → Option Outcome × Center
  | .lottery .expression666 playerId time draws =>
      let (r, s) := s.lotteryExpression666 F playerId time draws
      (some r, s)
  | .lottery .expressionShuitong playerId time draws =>
      let (r, s) := s.lotteryExpressionShuitong F playerId time draws
      (some r, s)
  | .loadConfig raw666 rawShuitong => (none, s.loadConfig raw666 rawShuitong)

end JyQipai.Lottery
