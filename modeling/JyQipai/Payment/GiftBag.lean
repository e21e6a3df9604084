import JyQipai.Common.Date

/-!
# Gift bags

The tables of `pay_service`, and the tests of `pay_gift_bag.lua`: how many bags are left, and
what each player has bought.  A bag may be bought once, once on a day of the service, or at any
time.
-/

namespace JyQipai.Payment

open Common

abbrev PlayerId := String

/-- A `product_id` is a number, or a text when it was read from the database. -/
inductive ProductId where
  | num (n : Nat)
  | str (s : String)
  deriving DecidableEq, Repr

def ProductId.toNumber : ProductId → Option Nat
  | .num n => some n
  | .str s => s.toNat?

def ProductId.find {α : Type} (table : Nat → Option α) : ProductId → Option α
  | .num n => table n
  | .str _ => none

structure Condition where
  limit : Nat
  duration : Int
  deriving DecidableEq, Repr

/-- A row of `shoping_config` in `pay_service`. -/
structure GiftBag where
  onOff : Int := 1
  buyLimt : Nat
  startTime : Option Int := none
  endTime : Option Int := none
  condition : Option Condition := none
  deriving DecidableEq, Repr

structure Bought where
  num : Nat := 0
  time : Int := 0
  permitNum : Nat := 0
  permitTime : Int := 0
  deriving DecidableEq, Repr

structure Received where
  playerId : PlayerId
  giftBagId : ProductId
  time : Int
  deriving DecidableEq, Repr

/-- The tables of `pay_service`.  `count` is that of `gift_bag_data`, and `received` the
history of the bags that were delivered. -/
structure GiftBags where
  now : Int := 0
  createOrderWaitTime : Int := 30
  stopBuyGiftBag : ProductId → Bool := fun _ => false
  bags : Nat → Option GiftBag := fun _ => none
  count : Nat → Option Int := fun _ => none
  bought : PlayerId → Nat → Option Bought := fun _ _ => none
  createGiftBagOrderTime : PlayerId → Option Int := fun _ => none
  createGiftBagOrderLock : PlayerId → Bool := fun _ => false
  payForbidden : String → Bool := fun _ => false
  actLock : Bool := false
  playerLock : PlayerId → Bool := fun _ => false
  received : List Received := []

def serviceZeroTime : Int := 6

namespace GiftBags

variable (s : GiftBags)

/-- The tests of `query_player_gift_bag_status` behind the calls of other services: the number
of an error, or `none` where an error is raised. -/
def testStatus (bag : GiftBag) (d : Bought) : Option Nat :=
  let permit :=
    match bag.condition with
    | some condition =>
        if condition.limit < d.permitNum ∨ d.permitTime < s.now then 3406 else 0
    | none => 0
  if 0 < d.num then
    match bag.buyLimt with
    | 0 => some 3401
    | 1 => some (if chkSameDate d.time s.now serviceZeroTime then 3405 else permit)
    | 2 => some permit
    | _ => none
  else some permit

def playerBuyGiftBag (playerId : PlayerId) (giftBagId : ProductId) : GiftBags :=
  match giftBagId with
  | .str _ => s
  | .num id =>
      match s.count id with
      | none => s
      | some count =>
          let d := (s.bought playerId id).getD {}
          let s := { s with
            bought := Function.update s.bought playerId
              (Function.update (s.bought playerId) id
                (some { d with num := d.num + 1, time := s.now })) }
          if count < 1 then s
          else
            { s with
              count := Function.update s.count id (some (count - 1))
              createGiftBagOrderTime := Function.update s.createGiftBagOrderTime playerId none }

def receive (playerId : PlayerId) (giftBagId : ProductId) : GiftBags :=
  { s with received := s.received ++ [⟨playerId, giftBagId, s.now⟩] }

/-- The tests of `get_create_gift_bag_order_status` before the lock. -/
def testCreate (playerId : PlayerId) (giftBagId : ProductId) : Nat :=
  if s.stopBuyGiftBag giftBagId then 1002
  else
    match giftBagId.find s.bags with
    | none => 1001
    | some bag =>
        if bag.onOff ≠ 1 then 3404
        else if (giftBagId.find s.count).isNone then 1001
        else if s.now < (s.createGiftBagOrderTime playerId).getD 0 then 3402
        else if s.createGiftBagOrderLock playerId then 1008
        else 0

def testOrder (bag : GiftBag) (giftBagId : ProductId) : Nat :=
  if (giftBagId.find s.count).getD 0 < 1 then 3403
  else if s.now < bag.startTime.getD 0 ∨ bag.endTime.getD 2551318590 < s.now then 3404
  else 0

def setCreateLock (playerId : PlayerId) (b : Bool) : GiftBags :=
  { s with
    createGiftBagOrderLock := Function.update s.createGiftBagOrderLock playerId b }

end GiftBags

end JyQipai.Payment
