import JyQipai.Payment.Complete

/-!
# Orders of the App Store

The orders of `create_appstore_order` are found by their transaction.  `modify_appstore_order`
takes the order by the transaction and the details by the number of the order, and is not
protected.
-/

namespace JyQipai.Payment

open Lib AssetManage

/-- The arguments of `modify_appstore_order` behind the transaction. -/
structure ModifyAppstore where
  orderStatus : OrderStatus
  errorDesc : Option String := none
  definitionId : Option String := none
  channelProductId : Option String := none
  deriving DecidableEq, Repr

def ModifyAppstore.updates (m : ModifyAppstore) : List Update :=
  [.orderStatus m.orderStatus] ++ m.errorDesc.toList.map .errorDesc ++
    m.definitionId.toList.map .channelOrderId ++
    m.channelProductId.toList.map .channelProductId

namespace Tables

def newAppstoreOrder (s : Tables) (id : OrderId) (userId : PlayerId) (productId : String)
    (goods : Goods) (transactionId : String) (isSandbox : Int) (convert : Option AssetType)
    (definitionId : Option String) : Order where
  orderId := id
  playerId := userId
  money := goods.price
  channelType := "appstore"
  productId := .num goods.id
  productDesc := descOf goods convert
  isTest := isSandbox
  channelProductId := some productId
  itunesTransId := some transactionId
  createTime := s.now
  convert := convert
  convertId := goods.convertId
  channelOrderId := definitionId

def insertAppstoreOrder (s : Tables) (transactionId : String) (o : Order)
    (assets : List Asset) : Tables :=
  { s with
    appstorePaymentInfo := Function.update s.appstorePaymentInfo transactionId (some o)
    orderRows := s.orderRows ++ [o.row] }.insertDetail o.orderId assets

def createAppstoreOrder (s : Tables) (userId : PlayerId) (productId transactionId : String)
    (isSandbox : Int) (convert : Option AssetType) (definitionId : Option String)
    (random : String) : Except Nat OrderId × Tables :=
  match s.appstoreShopingGoodsConfig productId with
  | none => (.error 1001, s)
  | some goods =>
      let (id, s) := s.createOrderId random
      (.ok id, s.insertAppstoreOrder transactionId
        (s.newAppstoreOrder id userId productId goods transactionId isSandbox convert
          definitionId) goods.assets)

def setAppstoreFields (s : Tables) (transactionId : String) (o : Order)
    (updates : List Update) : Tables :=
  { s with
    appstorePaymentInfo := Function.update s.appstorePaymentInfo transactionId
      (some { o with toFields := o.setAll updates }) }

def redeem (s : Tables) (transactionId : String) (id : OrderId) (playerId : PlayerId) : Tables :=
  { s with redeemed := s.redeemed ++ [⟨transactionId, id, playerId⟩] }

/-- The end of `modify_appstore_order`, once the columns are written. -/
def completeAppstoreOrder (id : OrderId) (transactionId : String) (o : Order)
    (updates : List Update) : Op (Bool × Option Nat) := fun s =>
  match s.paymentInfoDetail id with
  | none => .done s (false, some 2240)
  | some detail =>
      match o.channelProductId.bind s.appstoreShopingGoodsConfig with
      | none => .raised s
      | some goods =>
          (deliver o goods detail (s.redeem transactionId id o.playerId)).bind fun _ s =>
            .done (s.updateRow id updates) (true, none)

def modifyAppstoreOrder (id : OrderId) (transactionId : String) (m : ModifyAppstore) :
    Op (Bool × Option Nat) := fun s =>
  match s.appstorePaymentInfo transactionId with
  | none => .done s (false, some 2231)
  | some o =>
      if o.orderStatus = .complete then .done s (false, some 2232)
      else if ¬m.orderStatus.known then .done s (false, some 2233)
      else
        let updates := o.changes m.updates ++
          if m.orderStatus = .complete then [.endTime s.now] else []
        let s := s.setAppstoreFields transactionId o updates
        if m.orderStatus = .complete then
          completeAppstoreOrder id transactionId { o with toFields := o.setAll updates }
            updates s
        else .done (s.updateRow id updates) (true, none)

end Tables

end JyQipai.Payment
