import JyQipai.Payment.Order
import JyQipai.Lib.Serve

/-!
# Completing pay orders

`modify_pay_order` writes the status of an order and delivers its goods when that is
`complete`.  It waits for `pay_service` and for each change of an asset, which may load the
player.  What it does behind the lock of the player is a protected call.  The messages to
the player and the statistics are left out.
-/

namespace JyQipai.Payment

open Lib AssetManage

inductive Ask where
  | changeAsset (playerId : PlayerId) (gain : Gain)
  | queryPlayerGiftBagStatus (playerId : PlayerId) (giftBagId : ProductId)
  | playerBuyGiftBag (playerId : PlayerId) (giftBagId : ProductId)
  deriving DecidableEq, Repr

/-- `refused` is a change that returns `nil` or `false`; an error in a change of an asset
may come before the asset is added or behind it. -/
inductive Answer where
  | changed
  | refused
  | status (result : Nat)
  | bought
  | error (added : Bool)
  deriving DecidableEq, Repr

abbrev Op (α : Type) := Handler Tables Ask Answer α

/-- The arguments of `modify_pay_order` behind the order. -/
structure Modify where
  orderStatus : OrderStatus
  errorDesc : Option String := none
  channelAccountId : Option String := none
  channelOrderId : Option String := none
  channelProductId : Option String := none
  itunesTransId : Option String := none
  deriving DecidableEq, Repr

def Modify.updates (m : Modify) : List Update :=
  [.orderStatus m.orderStatus] ++ m.errorDesc.toList.map .errorDesc ++
    m.channelOrderId.toList.map .channelOrderId ++
    m.channelProductId.toList.map .channelProductId ++
    m.itunesTransId.toList.map .itunesTransId ++
    m.channelAccountId.toList.map .channelAccountId

def convertRow (cc : List ConvertGoods) (id : Option Nat) : Option ConvertGoods :=
  (cc.filter fun d => id = d.id).getLast?

/-- The result behind the protected call: an error in it leaves `_succ` as it was at the
start. -/
def Result.ofCall : Option (Option Nat) → Result
  | none => { succ := true, ok := false }
  | some errcode => { succ := errcode.isNone, errcode }

namespace Tables

def book (s : Tables) (id : OrderId) (playerId : PlayerId) (gain : Gain) : Tables :=
  { s with booked := s.booked ++ [⟨id, playerId, gain⟩] }

def start (s : Tables) (id : OrderId) (gains : List Gain) : Tables :=
  { s with begun := s.begun ++ [(id, gains)] }

def receiveBag (s : Tables) (playerId : PlayerId) (giftBagId : ProductId) : Tables :=
  { s with toGiftBags := s.receive playerId giftBagId }

def setLock (s : Tables) (playerId : PlayerId) (b : Bool) : Tables :=
  { s with
    modifyPayOrderPlayerLock := Function.update s.modifyPayOrderPlayerLock playerId b }

def changes (s : Tables) (id : OrderId) (updates : List Update) : List Update :=
  match s.paymentInfo id with
  | none => []
  | some o => o.changes updates

def setFields (s : Tables) (id : OrderId) (updates : List Update) : Tables :=
  match s.paymentInfo id with
  | none => s
  | some o =>
      { s with
        paymentInfo := Function.update s.paymentInfo id
          (some { o with toFields := o.setAll updates }) }

def updateRow (s : Tables) (id : OrderId) (updates : List Update) : Tables :=
  { s with
    orderRows := s.orderRows.map fun r =>
      if r.orderId = id then { r with toFields := r.setAll updates } else r }

def changeAsset (id : OrderId) (playerId : PlayerId) (gain : Gain) : Op Bool := fun s =>
  .call s (.changeAsset playerId gain) fun
    | .changed, s => .done (s.book id playerId gain) true
    | .refused, s => .done s false
    | .error true, s => .raised (s.book id playerId gain)
    | _, s => .raised s

/-- The assets one after the other; `strict` is `multi_change_asset_and_sendMsg`, which
raises an error when one is refused. -/
def changeAll (strict : Bool) (id : OrderId) (playerId : PlayerId) : List Gain → Op Unit
  | [], s => .done s ()
  | gain :: gains, s =>
      (changeAsset id playerId gain s).bind fun ok s =>
        if strict ∧ ¬ok then .raised s else changeAll strict id playerId gains s

/-- The rows for the `convert` of an order, if the configuration has them. -/
def converted (s : Tables) (o : Order) : Option (AssetType × List ConvertGoods) :=
  o.convert.bind fun convert => (s.shopingConfig convert).map (convert, ·)

def completeShopOrder (o : Order) (detail : List Asset) : Op Unit := fun s =>
  match s.converted o with
  | some (convert, cc) =>
      match convertRow cc o.convertId with
      | none => .raised s
      | some d =>
          (changeAll false o.orderId o.playerId (d.gains convert)
              (s.start o.orderId (d.gains convert))).bind fun _ s =>
            match d.giftAssetType with
            | none => .raised s
            | some _ => .done s ()
  | none =>
      changeAll false o.orderId o.playerId
        ((detail.filter fun a => isAsset a.assetType).map Asset.gain)
        (s.start o.orderId (detail.map Asset.gain))

def completeGiftBagOrder (o : Order) (detail : List Asset) : Op Unit := fun s =>
  (changeAll true o.orderId o.playerId (detail.map (Asset.bagGain o.productId))
      (s.start o.orderId (detail.map (Asset.bagGain o.productId)))).bind fun _ s =>
    .call (s.receiveBag o.playerId o.productId) (.playerBuyGiftBag o.playerId o.productId) fun
      | .bought, s => .done s ()
      | _, s => .raised s

def deliver (o : Order) (goods : Goods) (detail : List Asset) : Op Unit :=
  match goods.shopType with
  | .shop => completeShopOrder o detail
  | .giftBag => completeGiftBagOrder o detail
  | .other _ => fun s => .raised s

def checkGiftBag (o : Order) (goods : Goods) (m : Modify) : Op (Option Nat × Modify) := fun s =>
  if goods.shopType = .giftBag ∧ m.orderStatus = .complete then
    .call s (.queryPlayerGiftBagStatus o.playerId o.productId) fun
      | .status result, s =>
          if result ≠ 0 then
            .done s (some result, { m with
              orderStatus := .error
              errorDesc := some ("gift_bag status error !!! " ++ toString result) })
          else .done s (none, m)
      | _, s => .raised s
  else .done s (none, m)

def written (s : Tables) (id : OrderId) (m : Modify) : List Update :=
  s.changes id m.updates ++ if m.orderStatus = .complete then [.endTime s.now] else []

def writeOrder (o : Order) (goods : Goods) (errcode : Option Nat) (m : Modify) :
    Op (Option Nat) := fun s =>
  let updates := s.written o.orderId m
  let s := s.setFields o.orderId updates
  if updates = [] then .done s (some 1010)
  else if m.orderStatus = .complete then
    match s.paymentInfoDetail o.orderId with
    | none => .done s (some 2240)
    | some detail =>
        (deliver o goods detail s).bind fun _ s =>
          .done { s.updateRow o.orderId updates with
            playerOrderWaitTime := Function.update s.playerOrderWaitTime o.playerId none } errcode
  else .done (s.updateRow o.orderId updates) errcode

/-- The protected call of `modify_pay_order`; its result is the number of an error. -/
def modifyOrder (o : Order) (procid : Nat) (m : Modify) : Op (Option Nat) := fun s =>
  match s.shopingGoodsConfig procid with
  | none => .done s (some 1002)
  | some goods =>
      (checkGiftBag o goods m s).bind fun (errcode, m) s => writeOrder o goods errcode m s

def modifyPayOrder (id : OrderId) (m : Modify) : Op Result := fun s =>
  match s.paymentInfo id with
  | none => .done s { succ := false, errcode := some 2231 }
  | some o =>
      if o.orderStatus = .complete then .done s { succ := false, errcode := some 2232 }
      else if m.orderStatus = o.orderStatus then .done s { succ := false, errcode := some 1003 }
      else if ¬m.orderStatus.known then .done s { succ := false, errcode := some 2233 }
      else
        match o.productId.toNumber with
        | none => .done s { succ := false, errcode := some 1001 }
        | some procid =>
            if s.modifyPayOrderPlayerLock o.playerId then
              .done s { succ := false, errcode := some 1008 }
            else
              (modifyOrder o procid m (s.setLock o.playerId true)).xpcall.bind fun r s =>
                .done (s.setLock o.playerId false) (Result.ofCall r)

/-! ## What a call is to do -/

def gainsOf (s : Tables) (o : Order) (goods : Goods) (detail : List Asset) :
    Option (List Gain) :=
  match goods.shopType with
  | .shop =>
      match s.converted o with
      | some (convert, cc) => (convertRow cc o.convertId).map fun d => d.gains convert
      | none => some (detail.map Asset.gain)
  | _ => some (detail.map (Asset.bagGain o.productId))

def assetsOf (s : Tables) (id : OrderId) : Option (List Gain) :=
  (s.paymentInfo id).bind fun o => o.productId.toNumber.bind fun procid =>
    (s.shopingGoodsConfig procid).bind fun goods => (s.paymentInfoDetail id).bind fun detail =>
      s.gainsOf o goods detail

def statusOf (s : Tables) (id : OrderId) : Option OrderStatus :=
  (s.paymentInfo id).map fun o => o.orderStatus

def bookedOf (s : Tables) (id : OrderId) : List Gain :=
  (s.booked.filter fun b => b.orderId = id).map Booking.gain

def addedOf (s : Tables) (id : OrderId) : Option (List Gain) :=
  if id ∈ s.begun.map Prod.fst then some (s.bookedOf id) else none

def record (s : Tables) (r : Return) : Tables := { s with returned := s.returned ++ [r] }

/-- A call of `modify_pay_order`, with the record of its return. -/
def modifyAndRecord (id : OrderId) (m : Modify) : Op Unit := fun s =>
  let assets := s.assetsOf id
  let before := s.statusOf id
  (modifyPayOrder id m s).bind fun result s =>
    .done (s.record
      { orderId := id
        asked := m.orderStatus
        before
        assets
        result
        added := s.addedOf id
        after := s.statusOf id }) ()

end Tables

/-- What happens to `data_service`: the calls, new tables of the configuration, and the
time. -/
inductive Event where
  | createPayOrder (userId : PlayerId) (channelType sourceType : Option String)
    (goodsId : Nat) (convert : Option AssetType) (random : String)
  | modifyPayOrder (id : OrderId) (m : Modify)
  | updateShopingConfig (goods : Nat → Option Goods) (appstore : String → Option Goods)
    (config : AssetType → Option (List ConvertGoods))
  | clock (seconds : Nat)

def handle : Event → Op Unit
  | .createPayOrder userId channelType sourceType goodsId convert random, s =>
      .done (s.createPayOrder userId channelType sourceType goodsId convert random).2 ()
  | .modifyPayOrder id m, s => s.modifyAndRecord id m
  | .updateShopingConfig goods appstore config, s =>
      .done { s with
        shopingGoodsConfig := goods
        appstoreShopingGoodsConfig := appstore
        shopingConfig := config } ()
  | .clock seconds, s => .done { s with now := s.now + seconds } ()

end JyQipai.Payment
