import JyQipai.AssetManage.Manage
import JyQipai.Lib.Owned
import JyQipai.Lib.Total

/-!
# Purchases

The requests of `asset_manage.lua` that take a price: the exchange of goods and the
two lotteries.  Between the check of the balance and the payment they may wait, and
`act_lock` is held during some of the waits only.
-/

namespace JyQipai.AssetManage

open JyQipai.Lib

def isAsset (t : AssetType) : Bool :=
  t ∈ ["diamond", "jing_bi", "fish_coin", "cash", "shop_gold_sum", "jipaiqi", "room_card"] ||
    (5 < t.length && t.startsWith "prop_") || isDressAsset t

/-- `asset_type_error_enum_map`, with the code of the purchases for all other
assets. -/
def payError (t : AssetType) : Int :=
  if assetError t = 1012 then 2401 else assetError t

def delivered (t : AssetType) : Option Int → Change
  | some n => .amount ⟨t, n, none⟩ none
  | none => .object t none none none none

def taken (price : AssetType × Int) : Change := .amount ⟨price.1, -price.2, none⟩ none

def Good.gifts (g : Good) : List Change :=
  (g.giftAssetType.getD []).zipIdx.filterMap fun (t, i) =>
    if isAsset t then some (delivered t g.giftAssetCount[i]?) else none

namespace Account

def lockAct (s : Account) : Account := { s with actLock := true }

def unlockAct (s : Account) : Account := { s with actLock := false }

def setConfig (s : Account) : Option (ShopConfig × Int) → Account
  | some (c, v) => { s with shopingConfig := c, shopingConfigVersion := v }
  | none => s

def updateShopingConfig : Op Unit := fun s =>
  .call s (.getConfig s.shopingConfigVersion) fun
    | .config c, s => .done (s.setConfig c) ()
    | _, s => .raised s

def good (s : Account) (t : AssetType) (id : Int) : Option Good :=
  (s.shopingConfig.lookup t).bind (·.lookup id)

def exchangeRow (t : AssetType) (g : Good) : Op Int := fun s =>
  match g.use with
  | none => .raised s
  | some price =>
      if (s.assetDatas price.1).getD 0 < price.2 then .done s (payError price.1)
      else if isAsset t then
        (changeAssetMulti true (delivered t (some g.num) :: taken price :: g.gifts) s).bind
          fun _ s => .done s 0
      else .done s 1001

def payExchangeGoods (goodsType : Option AssetType) (goodsId : Option Int) : Op Int :=
  fun s =>
    if s.actLock then .done s 1008
    else
      (updateShopingConfig s.lockAct).bind fun _ s =>
        let s := s.unlockAct
        match goodsType, goodsId with
        | some t, some id =>
            match s.good t id with
            | some g => exchangeRow t g s
            | none => .done s 1001
        | _, _ => .done s 1001

def expression (s : Account) (group : AssetType) (time : Int) :
    Option (Option (AssetType × Int)) :=
  (s.shopingConfig.lookup "expression").map fun rows =>
    (rows.find? fun (_, g) => g.group = some group ∧ g.num = time).bind (·.2.use)

def drawExpression (type : AssetType) (time : Int) : Op Int := fun s =>
  .call s (.lotteryExpression type time) fun
    | .lottery l, s => (changeAssetMulti true l s).bind fun _ s => .done s.unlockAct 0
    | _, s => .raised s

def buyExpression (type : AssetType) (time : Int) (price : AssetType × Int) : Op Int :=
  fun s =>
    if (s.assetDatas price.1).getD 0 < price.2 then .done s.unlockAct (payError price.1)
    else
      .call s (.checkLotteryStatus time (s.queryAssetByType "jing_bi")) fun
        | .status n, s =>
            if n ≠ 0 then .done s.unlockAct n
            else
              (changeAssetMulti true [taken price] s).bind fun _ s => drawExpression type time s
        | _, s => .raised s

def payLottery (type : AssetType) (time : Option Int) : Op Int := fun s =>
  if type ≠ "expression_666" ∧ type ≠ "expression_shuitong" then .done s 1001
  else
    match time with
    | none => .done s 1001
    | some time =>
        if s.actLock then .done s 1008
        else
          (updateShopingConfig s.lockAct).bind fun _ s =>
            match s.expression type time with
            | none => .raised s
            | some none => .done s.unlockAct 1002
            | some (some price) => buyExpression type time price s

/-- The rest of `pay_lottery_luck_box`, once the box has been drawn. -/
def buyLuckBox (consume : Int) (assets : Change) : Op Int := fun s =>
  if s.queryAssetByType "jing_bi" < consume then .done s 1023
  else
    (changeAssetMulti true [taken ("jing_bi", consume), assets] s).bind fun _ s => .done s 0

def payLotteryLuckBox (id : Option Int) : Op Int := fun s =>
  if s.actLock then .done s 1008
  else
    match id with
    | none => .done s 1001
    | some id =>
        .call s.lockAct (.lotteryLuckBox id (s.queryAssetByType "jing_bi")) fun
          | .status n, s => .done s.unlockAct n
          | .luckBox consume assets, s => buyLuckBox consume assets s.unlockAct
          | _, s => .raised s

end Account

inductive Purchase where
  | exchangeGoods (goodsType : Option AssetType) (goodsId : Option Int)
  | lottery (type : AssetType) (time : Option Int)
  | luckBox (id : Option Int)
  deriving DecidableEq, Repr

namespace Purchase

def pay : Purchase → Op Int
  | .exchangeGoods goodsType goodsId => Account.payExchangeGoods goodsType goodsId
  | .lottery type time => Account.payLottery type time
  | .luckBox id => Account.payLotteryLuckBox id

inductive Event where
  | tick (now : Int)
  | request (r : Purchase)

def handle : Event → Handler Account (Purchase × Ask) Answer Int
  | .tick now, s => .done { s with now := now } 0
  | .request r, s => (r.pay s).mapAsk (Prod.mk r)

/-! ## What the other services answer -/

/-- An asset that is kept in `asset_datas`. -/
def IsCoin (t : AssetType) : Prop := t ≠ "jipaiqi" ∧ ¬ isDressAsset t

instance : DecidablePred IsCoin :=
  fun t => inferInstanceAs (Decidable (t ≠ "jipaiqi" ∧ ¬ isDressAsset t))

/-- The entry takes no coins, and if it adds an object, then of an object type. -/
def Gives : Change → Prop
  | .amount a _ => 0 ≤ a.value
  | .object t _ attr _ _ => attr ≠ none → isObjectAsset t

instance : DecidablePred Gives
  | .amount a _ => inferInstanceAs (Decidable (0 ≤ a.value))
  | .object t _ attr _ _ => inferInstanceAs (Decidable (attr ≠ none → isObjectAsset t))

def SaneShop (c : ShopConfig) : Prop :=
  ∀ e ∈ c, ∀ r ∈ e.2, (∀ p ∈ r.2.use, IsCoin p.1) ∧ 0 ≤ r.2.num ∧
    ∀ n ∈ r.2.giftAssetCount, 0 ≤ n

instance : DecidablePred SaneShop := fun c =>
  inferInstanceAs (Decidable (∀ e ∈ c, ∀ r ∈ e.2, (∀ p ∈ r.2.use, IsCoin p.1) ∧
    0 ≤ r.2.num ∧ ∀ n ∈ r.2.giftAssetCount, 0 ≤ n))

def Valid : Ask → Answer → Prop
  | .changeObject .., .object _ => True
  | .getConfig _, .config c => ∀ x ∈ c, SaneShop x.1
  | .checkLotteryStatus .., .status _ => True
  | .lotteryExpression .., .lottery l => ∀ c ∈ l, Gives c
  | .lotteryLuckBox .., .status n => n ≠ 0
  | .lotteryLuckBox .., .luckBox _ assets => Gives assets
  | _, _ => False

instance decidableValid : (q : Ask) → (a : Answer) → Decidable (Valid q a)
  | .changeObject .., .object _ | .checkLotteryStatus .., .status _ => .isTrue trivial
  | .getConfig _, .config c => inferInstanceAs (Decidable (∀ x ∈ c, SaneShop x.1))
  | .lotteryExpression .., .lottery l => inferInstanceAs (Decidable (∀ c ∈ l, Gives c))
  | .lotteryLuckBox .., .status n => inferInstanceAs (Decidable (n ≠ 0))
  | .lotteryLuckBox .., .luckBox _ assets => inferInstanceAs (Decidable (Gives assets))
  | .changeObject .., .config _ | .changeObject .., .status _ | .changeObject .., .lottery _
  | .changeObject .., .luckBox .. | .getConfig _, .object _ | .getConfig _, .status _
  | .getConfig _, .lottery _ | .getConfig _, .luckBox .. | .checkLotteryStatus .., .object _
  | .checkLotteryStatus .., .config _ | .checkLotteryStatus .., .lottery _
  | .checkLotteryStatus .., .luckBox .. | .lotteryExpression .., .object _
  | .lotteryExpression .., .config _ | .lotteryExpression .., .status _
  | .lotteryExpression .., .luckBox .. | .lotteryLuckBox .., .object _
  | .lotteryLuckBox .., .config _ | .lotteryLuckBox .., .lottery _ => .isFalse id

/-! ## Prices -/

def change (s t : Account) : AssetType → Int :=
  fun x => (t.assetDatas x).getD 0 - (s.assetDatas x).getD 0

def worth : Change → AssetType → Int
  | .amount a _, x =>
      if (a.condiType = none ∨ a.condiType = some .consume) ∧ ¬ isDressAsset a.assetType ∧
        a.assetType ≠ "jipaiqi" ∧ a.assetType = x then a.value else 0
  | .object .., _ => 0

def bill : Purchase → List (Stretch Account Answer) →
    Option ((AssetType × Int) × List Change)
  | .exchangeGoods (some t) (some id), _ :: p :: _ =>
      match p.answer with
      | some (.config c) =>
          ((p.start.setConfig c).good t id).bind fun g =>
            g.use.map fun price => (price, delivered t (some g.num) :: g.gifts)
      | _ => none
  | .lottery type (some time), _ :: p :: _ :: q :: _ =>
      match p.answer, q.answer with
      | some (.config c), some (.lottery l) =>
          ((p.start.setConfig c).expression type time).bind fun price =>
            price.map fun price => (price, l)
      | _, _ => none
  | .luckBox _, _ :: p :: _ =>
      match p.answer with
      | some (.luckBox consume assets) => some (("jing_bi", consume), [assets])
      | _ => none
  | _, _ => none

def Paid (r : Purchase) (path : List (Stretch Account Answer)) : Prop :=
  ∃ price l, r.bill path = some (price, l) ∧ ∀ x, total change path x =
    (l.map fun c => worth c x).sum - if x = price.1 then price.2 else 0

end Purchase

end JyQipai.AssetManage
