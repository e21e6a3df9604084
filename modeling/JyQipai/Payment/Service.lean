import JyQipai.Payment.Appstore
import JyQipai.Lib.Remote

/-!
# Two services

`pay_service` and `data_service` call each other.  A call is a message on its way, the handler
of the other service, and the reply on its way; messages may arrive in any order.
-/

namespace JyQipai.Payment

open Lib AssetManage

/-- The arguments of `verify_appstore_pay`. -/
structure Verify where
  userId : PlayerId
  productId : String
  transactionId : String
  isSandbox : Int := 0
  convert : Option AssetType := none
  definitionId : Option String := none
  deriving DecidableEq, Repr

inductive Message where
  | ask (q : Ask)
  | createPayOrder (userId : PlayerId) (goodsId : Nat)
  | queryAppstoreOrder (transactionId : String)
  | createAppstoreOrder (v : Verify)
  | modifyAppstoreOrder (id : OrderId) (transactionId : String) (m : ModifyAppstore)
  deriving DecidableEq, Repr

/-- What a handler waits for: a message or the reply to it, the load of a player, or an
answer from outside. -/
inductive Call where
  | request (m : Message)
  | reply (m : Message)
  | replyAsk (q : Ask) (a : Answer)
  | load (playerId : PlayerId) (gain : Gain)
  | queryGoldpigGiftCanBuy (playerId : PlayerId) (giftBagId : ProductId)
  | queryZhoukaCanBuy (playerId : PlayerId) (giftBagId : ProductId)
  | requestPostJson (v : Verify)
  deriving DecidableEq, Repr

inductive Receipt where
  | accepted
  | unreachable
  | unreadable
  | status (code : Nat)
  | mismatch
  deriving DecidableEq, Repr

/-- `go` lets a message arrive, with the result of `random_str` for a new order. -/
inductive Reply where
  | go (random : String)
  | loaded (a : Answer)
  | canBuy (result : Option Bool)
  | receipt (r : Receipt)
  | error
  deriving DecidableEq, Repr

abbrev Service (α : Type) := Handler Tables Call Reply α

namespace Tables

def setGiftBags (s : Tables) (bags : GiftBags) : Tables := { s with toGiftBags := bags }

def setActLock (s : Tables) (b : Bool) : Tables := { s with actLock := b }

def setPlayerLock (s : Tables) (playerId : PlayerId) (b : Bool) : Tables :=
  { s with playerLock := Function.update s.playerLock playerId b }

/-! ## Gift bags -/

def boughtAt (s : Tables) (playerId : PlayerId) (giftBagId : ProductId) (known : Bool) :
    Bought :=
  if known then (giftBagId.find (s.bought playerId)).getD {} else {}

/-- What `query_player_gift_bag_status` does with the answers for gold pigs and week cards. -/
def specialStatus (playerId : PlayerId) (giftBagId : ProductId) (k : Service Nat) :
    Service Nat := fun s =>
  .call s (.queryGoldpigGiftCanBuy playerId giftBagId) fun
    | .canBuy (some ok), s => .done s (if ok then 0 else 3401)
    | .canBuy none, s =>
        .call s (.queryZhoukaCanBuy playerId giftBagId) fun
          | .canBuy (some ok), s => .done s (if ok then 0 else 3401)
          | .canBuy none, s => k s
          | _, s => .raised s
    | _, s => .raised s

def queryPlayerGiftBagStatus (playerId : PlayerId) (giftBagId : ProductId) : Service Nat :=
  fun s =>
    let known := (giftBagId.find (s.bought playerId)).isSome
    match giftBagId.find s.bags with
    | none => .done s 1001
    | some bag =>
        specialStatus playerId giftBagId (fun s =>
          match s.testStatus bag (s.boughtAt playerId giftBagId known) with
          | none => .raised s
          | some result => .done s result) s

def getCreateGiftBagOrderStatus (playerId : PlayerId) (giftBagId : ProductId) : Service Nat :=
  fun s =>
    match giftBagId.find s.bags with
    | none => .done s (s.testCreate playerId giftBagId)
    | some bag =>
        if s.testCreate playerId giftBagId ≠ 0 then .done s (s.testCreate playerId giftBagId)
        else
          (queryPlayerGiftBagStatus playerId giftBagId
              (s.setGiftBags (s.setCreateLock playerId true))).bind fun result s =>
            let result := if result ≠ 0 then result else s.testOrder bag giftBagId
            let s :=
              if result ≠ 0 then s
              else { s with
                createGiftBagOrderTime := Function.update s.createGiftBagOrderTime playerId
                  (some (s.now + s.createOrderWaitTime)) }
            .done (s.setGiftBags (s.setCreateLock playerId false)) result

/-! ## Calls between the services -/

/-- A message to `pay_service`, whose handler runs in between. -/
def remote : Ask → Service Answer
  | .changeAsset playerId gain, s =>
      .call s (.load playerId gain) fun
        | .loaded a, s => .done s a
        | _, s => .done s (.error false)
  | .queryPlayerGiftBagStatus playerId giftBagId, s =>
      .call s (.request (.ask (.queryPlayerGiftBagStatus playerId giftBagId))) fun _ s =>
        (queryPlayerGiftBagStatus playerId giftBagId s).xpcall.bind fun result s =>
          let a := (result.map Answer.status).getD (.error false)
          .call s (.replyAsk (.queryPlayerGiftBagStatus playerId giftBagId) a) fun _ s =>
            .done s a
  | .playerBuyGiftBag playerId giftBagId, s =>
      .call s (.request (.ask (.playerBuyGiftBag playerId giftBagId))) fun _ s =>
        .call (s.setGiftBags (s.playerBuyGiftBag playerId giftBagId))
            (.replyAsk (.playerBuyGiftBag playerId giftBagId) .bought) fun _ s =>
          .done s .bought

def data {α : Type} (op : Op α) : Service α := fun s => (op s).inline remote

/-- A call of `data_service`; `op` is given the result of `random_str`. -/
def callData {α : Type} (m : Message) (op : String → Service α) : Service α := fun s =>
  .call s (.request m) fun
    | .go random, s =>
        (op random s).xpcall.bind fun result s =>
          .call s (.reply m) fun _ s =>
            match result with
            | none => .raised s
            | some a => .done s a
    | _, s => .raised s

/-! ## `pay_service` -/

/-- The test of `create_pay_order` for goods that are a gift bag. -/
def checkCreate (userId : PlayerId) (goodsId : Nat) : Service Nat := fun s =>
  match s.bags goodsId with
  | none => .done s 0
  | some _ => getCreateGiftBagOrderStatus userId (.num goodsId) s

def payCreateOrder (userId : PlayerId) (channelType sourceType : Option String)
    (goodsId : Nat) (convert : Option AssetType) : Service (Except Nat OrderId) := fun s =>
  match channelType with
  | none => .done s (.error 1001)
  | some channel =>
      if s.payForbidden channel then .done s (.error 2403)
      else if s.actLock then .done s (.error 1008)
      else
        (checkCreate userId goodsId (s.setActLock true)).bind fun result s =>
          if result ≠ 0 then .done (s.setActLock false) (.error result)
          else
            (callData (.createPayOrder userId goodsId) (fun random s =>
              let (r, s) :=
                s.createPayOrder userId channelType sourceType goodsId convert random
              .done s r) s).bind fun r s => .done (s.setActLock false) r

/-- `query_appstore_order`: the order as it is when the message arrives. -/
def callQueryAppstoreOrder (transactionId : String) : Service (Option Order) :=
  callData (.queryAppstoreOrder transactionId) fun _ s =>
    .done s (s.appstorePaymentInfo transactionId)

def callCreateAppstoreOrder (v : Verify) : Service (Except Nat OrderId) :=
  callData (.createAppstoreOrder v) fun random s =>
    let (r, s) := s.createAppstoreOrder v.userId v.productId v.transactionId v.isSandbox
      v.convert v.definitionId random
    .done s r

/-- The order that is found for the transaction, or made for it; a number is the result
of the whole call. -/
def findAppstoreOrder (v : Verify) : Service (Except Nat OrderId) := fun s =>
  (callQueryAppstoreOrder v.transactionId s).bind fun order s =>
    match order with
    | some o =>
        if o.orderStatus = .complete then .done s (.error 0)
        else if o.orderStatus = .error ∨ o.orderStatus = .fail then .done s (.error 2503)
        else .done s (.ok o.orderId)
    | none => callCreateAppstoreOrder v s

def modifyMessage (id : OrderId) (v : Verify) (status : OrderStatus) (desc : Option String) :
    Message :=
  .modifyAppstoreOrder id v.transactionId { orderStatus := status, errorDesc := desc }

def sendModify (id : OrderId) (v : Verify) (status : OrderStatus) (desc : String) :
    Service Nat := fun s =>
  .call (s.setPlayerLock v.userId false) (.request (modifyMessage id v status (some desc)))
    fun _ s =>
      (data (modifyAppstoreOrder id v.transactionId
        { orderStatus := status, errorDesc := some desc }) s).bind fun _ s => .done s 2502

/-- The rest of `verify_appstore_pay`, once there is an order; `desc` is what is written about
a receipt that does not belong to the transaction. -/
def verifyReceipt (v : Verify) (id : OrderId) (desc : String) : Service Nat := fun s =>
  .call s (.requestPostJson v) fun
    | .receipt .accepted, s =>
        (callData (modifyMessage id v .complete none) (fun _ => data (modifyAppstoreOrder id
          v.transactionId { orderStatus := .complete })) s).bind fun (succ, errcode) s =>
            .done (s.setPlayerLock v.userId false) (if succ then 0 else errcode.getD 0)
    | .receipt .unreachable, s => .done (s.setPlayerLock v.userId false) 2501
    | .receipt .unreadable, s => .done (s.setPlayerLock v.userId false) 1003
    | .receipt (.status code), s => sendModify id v .error (toString code) s
    | .receipt .mismatch, s => sendModify id v .fail desc s
    | _, s => .raised s

def verifyAppstorePay (v : Verify) (desc : String) : Service Nat := fun s =>
  if s.payForbidden "appstore" then .done s 2403
  else if s.playerLock v.userId then .done s 1008
  else
    (findAppstoreOrder v (s.setPlayerLock v.userId true)).bind fun order s =>
      match order with
      | .error result => .done (s.setPlayerLock v.userId false) result
      | .ok id => verifyReceipt v id desc s

end Tables

end JyQipai.Payment
