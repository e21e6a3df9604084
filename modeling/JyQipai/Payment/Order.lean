import JyQipai.AssetManage.Purchase
import JyQipai.Payment.GiftBag

/-!
# Pay orders

The part of `payment_info.lua` that creates orders: the tables of `data_service`, what is
written to the database for them, and what is read from it at a start.  The texts on the
write queues are taken as executed when they are pushed.
-/

namespace JyQipai.Payment

open Lib Common AssetManage

/-- The day, the number on that day and the random characters of an `order_id`. -/
structure OrderId where
  day : Int
  index : Nat
  random : String
  deriving DecidableEq, Repr

inductive OrderStatus where
  | init
  | create
  | error
  | fail
  | complete
  | systemError
  | other (name : String)
  deriving DecidableEq, Repr

def OrderStatus.known : OrderStatus → Bool
  | .create | .error | .fail | .complete | .systemError => true
  | .init | .other _ => false

inductive GoodsType where
  | buy
  | gift
  deriving DecidableEq, Repr

structure Asset where
  assetType : AssetType
  assetCount : Int
  goodsType : GoodsType := .buy
  deriving DecidableEq, Repr

/-- `ASSET_CHANGE_TYPE`, as far as it is used for orders. -/
inductive ChangeType where
  | buy
  | buyGift
  | buyGiftBag (productId : ProductId)
  deriving DecidableEq, Repr

structure Gain where
  assetType : AssetType
  value : Option Int
  changeType : ChangeType
  deriving DecidableEq, Repr

def Asset.gain (a : Asset) : Gain :=
  ⟨a.assetType, some a.assetCount, if a.goodsType = .buy then .buy else .buyGift⟩

def Asset.bagGain (productId : ProductId) (a : Asset) : Gain :=
  ⟨a.assetType, some a.assetCount, .buyGiftBag productId⟩

inductive ShopType where
  | shop
  | giftBag
  | other (name : String)
  deriving DecidableEq, Repr

structure Goods where
  id : Nat
  shopType : ShopType
  price : Int := 1
  payTitle : Option String := none
  convertId : Option Nat := none
  assets : List Asset := []
  deriving DecidableEq, Repr

structure ConvertGoods where
  id : Option Nat
  num : Option Int := none
  giftAssetType : Option (List AssetType) := some []
  giftAssetCount : List Int := []
  deriving DecidableEq, Repr

/-- What the row gives instead of the goods; without a list of gifts there is an error
behind the first asset. -/
def ConvertGoods.gains (d : ConvertGoods) (convert : AssetType) : List Gain :=
  ⟨convert, d.num, .buy⟩ ::
    (d.giftAssetType.getD []).zipIdx.map fun (type, i) => ⟨type, d.giftAssetCount[i]?, .buyGift⟩

structure Fields where
  orderStatus : OrderStatus := .init
  errorDesc : Option String := none
  channelOrderId : Option String := none
  channelProductId : Option String := none
  itunesTransId : Option String := none
  channelAccountId : Option String := none
  endTime : Option Int := none
  deriving DecidableEq, Repr

structure Order extends Fields where
  orderId : OrderId
  playerId : PlayerId
  moneyType : String := "rmb"
  money : Int
  channelType : String
  sourceType : Option String := none
  productId : ProductId
  productCount : Nat := 1
  productDesc : String := ""
  isTest : Int := 0
  createTime : Int := 0
  convert : Option AssetType := none
  convertId : Option Nat := none
  deriving DecidableEq, Repr

structure OrderRow extends Fields where
  orderId : OrderId
  playerId : PlayerId
  moneyType : String
  money : Int
  channelType : String
  sourceType : Option String
  productId : String
  productCount : Nat := 1
  productDesc : String
  isTest : Int
  createTime : Int
  deriving DecidableEq, Repr

structure DetailRow where
  orderId : OrderId
  assetType : AssetType
  assetCount : Int
  goodsType : GoodsType
  deriving DecidableEq, Repr

structure Booking where
  orderId : OrderId
  playerId : PlayerId
  gain : Gain
  deriving DecidableEq, Repr

/-- What `modify_pay_order` returns, and whether its protected call has ended without an
error. -/
structure Result where
  succ : Bool
  errcode : Option Nat := none
  ok : Bool := true
  deriving DecidableEq, Repr

/-- A call of `modify_pay_order` that has returned: the status it was to write, that of the
order before and behind it, the assets of the order when the call came, and those that were
added for it if a delivery was started. -/
structure Return where
  orderId : OrderId
  asked : OrderStatus
  before : Option OrderStatus
  assets : Option (List Gain)
  result : Result
  added : Option (List Gain)
  after : Option OrderStatus
  deriving DecidableEq, Repr

/-- A delivery for a transaction of the App Store: the order whose details are delivered, and
the player who receives them. -/
structure Redeemed where
  transactionId : String
  orderId : OrderId
  playerId : PlayerId
  deriving DecidableEq, Repr

/-- The tables of `data_service` for payments, with those of the database and of
`pay_service`.  `booked` are the assets that were added for orders, `begun` the deliveries
that were started, with all they are to add, `returned` the calls that are over, and
`redeemed` the deliveries for transactions. -/
structure Tables extends GiftBags where
  debugMoney : Option Int := none
  isPayTest : Bool := false
  channelTypes : List String := ["alipay", "weixin", "wxgzh", "appstore"]
  shopingGoodsConfig : Nat → Option Goods := fun _ => none
  appstoreShopingGoodsConfig : String → Option Goods := fun _ => none
  shopingConfig : AssetType → Option (List ConvertGoods) := fun _ => none
  players : PlayerId → Bool := fun _ => true
  playerOrderWaitTime : PlayerId → Option Int := fun _ => none
  lastPayOrderDate : Option Int := none
  lastPayOrderTodayIndex : Nat := 0
  paymentInfo : OrderId → Option Order := fun _ => none
  appstorePaymentInfo : String → Option Order := fun _ => none
  paymentInfoDetail : OrderId → Option (List Asset) := fun _ => none
  modifyPayOrderPlayerLock : PlayerId → Bool := fun _ => false
  orderRows : List OrderRow := []
  detailRows : List DetailRow := []
  booked : List Booking := []
  begun : List (OrderId × List Gain) := []
  returned : List Return := []
  redeemed : List Redeemed := []

/-! ## Rows -/

/-- The `insert` of an order; a `product_id` is stored as text. -/
def Order.row (o : Order) : OrderRow where
  toFields := o.toFields
  orderId := o.orderId
  playerId := o.playerId
  moneyType := o.moneyType
  money := o.money
  channelType := o.channelType
  sourceType := o.sourceType
  productId :=
    match o.productId with
    | .num n => n.repr
    | .str s => s
  productDesc := o.productDesc
  isTest := o.isTest
  createTime := o.createTime

def OrderRow.order (r : OrderRow) : Order where
  toFields := r.toFields
  orderId := r.orderId
  playerId := r.playerId
  moneyType := r.moneyType
  money := r.money
  channelType := r.channelType
  sourceType := r.sourceType
  productId := .str r.productId
  productCount := r.productCount
  productDesc := r.productDesc
  isTest := r.isTest
  createTime := r.createTime

/-! ## Columns that are written again -/

inductive Update where
  | orderStatus (v : OrderStatus)
  | errorDesc (v : String)
  | channelOrderId (v : String)
  | channelProductId (v : String)
  | itunesTransId (v : String)
  | channelAccountId (v : String)
  | endTime (v : Int)
  deriving DecidableEq, Repr

def Fields.set (f : Fields) : Update → Fields
  | .orderStatus v => { f with orderStatus := v }
  | .errorDesc v => { f with errorDesc := some v }
  | .channelOrderId v => { f with channelOrderId := some v }
  | .channelProductId v => { f with channelProductId := some v }
  | .itunesTransId v => { f with itunesTransId := some v }
  | .channelAccountId v => { f with channelAccountId := some v }
  | .endTime v => { f with endTime := some v }

def Fields.setAll (f : Fields) (updates : List Update) : Fields := updates.foldl Fields.set f

def Fields.changes (f : Fields) (updates : List Update) : List Update :=
  updates.filter fun u => f.set u ≠ f

theorem orderStatus_setAll {f : Fields} {updates : List Update}
    (h : ∀ u ∈ updates, ∀ v, u ≠ .orderStatus v) :
    (f.setAll updates).orderStatus = f.orderStatus := by
  induction updates generalizing f with
  | nil => rfl
  | cons u updates ih =>
      have hrest := ih (f := f.set u) fun u' hu' => h u' (List.mem_cons_of_mem _ hu')
      rw [Fields.setAll, List.foldl_cons]
      refine hrest.trans ?_
      cases u with
      | orderStatus v => exact absurd rfl (h _ List.mem_cons_self v)
      | _ => rfl

theorem orderStatus_setAll_changes {f : Fields} {status : OrderStatus} {rest others : List Update}
    (hrest : ∀ u ∈ rest, ∀ v, u ≠ .orderStatus v)
    (hothers : ∀ u ∈ others, ∀ v, u ≠ .orderStatus v) :
    (f.setAll (f.changes (.orderStatus status :: rest) ++ others)).orderStatus = status := by
  have hsame (f' : Fields) :
      (f'.setAll (f.changes rest ++ others)).orderStatus = f'.orderStatus := by
    refine orderStatus_setAll fun u hu => ?_
    rcases List.mem_append.mp hu with hu | hu
    · exact hrest u (List.mem_of_mem_filter hu)
    · exact hothers u hu
  rw [Fields.changes, List.filter_cons]
  split
  · exact hsame _
  · rename_i heq
    have hstatus : f.set (.orderStatus status) = f := by simpa using heq
    refine (hsame f).trans ?_
    rw [← hstatus]
    rfl

namespace Tables

variable (s : Tables)

/-! ## Creating orders -/

def nextIndex : Nat :=
  if s.lastPayOrderDate = some (serviceDay 0 s.now) then s.lastPayOrderTodayIndex + 1 else 1

def createOrderId (random : String) : OrderId × Tables :=
  (⟨serviceDay 0 s.now, s.nextIndex, random⟩,
    { s with
      lastPayOrderDate := some (serviceDay 0 s.now)
      lastPayOrderTodayIndex := s.nextIndex })

def insertDetail (id : OrderId) (assets : List Asset) : Tables :=
  { s with
    paymentInfoDetail := Function.update s.paymentInfoDetail id (some assets)
    detailRows := s.detailRows ++ assets.map fun a =>
      { orderId := id, assetType := a.assetType, assetCount := a.assetCount,
        goodsType := a.goodsType } }

def descOf (goods : Goods) (convert : Option AssetType) : String :=
  goods.payTitle.getD "" ++ (convert.map ("->" ++ ·)).getD ""

def newOrder (id : OrderId) (userId : PlayerId) (channelType : String)
    (sourceType : Option String) (goodsId : Nat) (goods : Goods)
    (convert : Option AssetType) : Order where
  orderId := id
  playerId := userId
  money := s.debugMoney.getD goods.price
  channelType := channelType
  sourceType := sourceType
  productId := .num goodsId
  productDesc := descOf goods convert
  isTest := if s.isPayTest then 1 else 0
  createTime := s.now
  convert := convert
  convertId := goods.convertId

def insertOrder (o : Order) (assets : List Asset) : Tables :=
  { s with
    paymentInfo := Function.update s.paymentInfo o.orderId (some o)
    orderRows := s.orderRows ++ [o.row] }.insertDetail o.orderId assets

def createPayOrder (userId : PlayerId) (channelType sourceType : Option String)
    (goodsId : Nat) (convert : Option AssetType) (random : String) :
    Except Nat OrderId × Tables :=
  match channelType.filter (· ∈ s.channelTypes) with
  | none => (.error 2236, s)
  | some channelType =>
      match s.shopingGoodsConfig goodsId with
      | none => (.error 2238, s)
      | some goods =>
          if goods.price ≤ 0 then (.error 2235, s)
          else if ¬s.players userId then (.error 2159, s)
          else if ∃ t ∈ s.playerOrderWaitTime userId, s.now < t then (.error 3402, s)
          else
            let s := { s with
              playerOrderWaitTime := Function.update s.playerOrderWaitTime userId
                (some (s.now + s.createOrderWaitTime)) }
            let (id, s) := s.createOrderId random
            (.ok id, s.insertOrder (s.newOrder id userId channelType sourceType goodsId goods
              convert) goods.assets)

/-! ## Start -/

def readOrder (info : OrderId → Option Order) (r : OrderRow) : OrderId → Option Order :=
  Function.update info r.orderId (some r.order)

def readAppstore (info : String → Option Order) (r : OrderRow) : String → Option Order :=
  match r.itunesTransId with
  | none => info
  | some id => Function.update info id (some r.order)

def readDetail (info : OrderId → Option (List Asset)) (r : DetailRow) :
    OrderId → Option (List Asset) :=
  Function.update info r.orderId (some ((info r.orderId).getD [] ++
    [{ assetType := r.assetType, assetCount := r.assetCount, goodsType := r.goodsType }]))

def initPaymentInfo : Tables :=
  { s with
    playerOrderWaitTime := fun _ => none
    modifyPayOrderPlayerLock := fun _ => false
    paymentInfo := s.orderRows.foldl readOrder fun _ => none
    appstorePaymentInfo := s.orderRows.foldl readAppstore fun _ => none
    paymentInfoDetail := s.detailRows.foldl readDetail fun _ => none }

/-! ## Numbers of orders -/

def Old (id : OrderId) : Prop :=
  ∃ day ∈ s.lastPayOrderDate, day ≤ serviceDay 0 s.now ∧
    (id.day < day ∨ id.day = day ∧ id.index ≤ s.lastPayOrderTodayIndex)

def nextId (random : String) : OrderId :=
  ⟨serviceDay 0 s.now, s.nextIndex, random⟩

variable {s} in
theorem not_old_nextId (random : String) : ¬s.Old (s.nextId random) := by
  rintro ⟨day, hday, hle, hlt | ⟨heq, hindex⟩⟩
  · exact absurd (hlt.trans_le hle) (lt_irrefl _)
  · rw [Option.mem_def] at hday
    have hnext : s.nextIndex = s.lastPayOrderTodayIndex + 1 := by
      have hday' : serviceDay 0 s.now = day := heq
      rw [nextIndex, if_pos (by rw [hday, hday'])]
    change s.nextIndex ≤ _ at hindex
    omega

variable {s} in
theorem old_next {t : Tables} (hnow : t.now = s.now)
    (hdate : t.lastPayOrderDate = some (serviceDay 0 s.now))
    (hindex : t.lastPayOrderTodayIndex = s.nextIndex) {id : OrderId}
    (h : s.Old id ∨ ∃ random, id = s.nextId random) : t.Old id := by
  refine ⟨serviceDay 0 s.now, hdate, by rw [hnow], ?_⟩
  rw [hindex]
  rcases h with ⟨day, hday, hle, hlt⟩ | ⟨random, rfl⟩
  · rcases hle.lt_or_eq with hless | rfl
    · left
      rcases hlt with hlt | ⟨heq, -⟩
      · omega
      · omega
    · rcases hlt with hlt | ⟨heq, hle'⟩
      · exact .inl hlt
      · rw [Option.mem_def] at hday
        rw [nextIndex, if_pos hday]
        exact .inr ⟨heq, by omega⟩
  · exact .inr ⟨rfl, le_refl _⟩

theorem createPayOrder_cases (userId : PlayerId)
    (channelType sourceType : Option String) (goodsId : Nat) (convert : Option AssetType)
    (random : String) :
    (∃ code, s.createPayOrder userId channelType sourceType goodsId convert random =
        (.error code, s)) ∨
      ∃ o assets, o.orderId = s.nextId random ∧ o.orderStatus = .init ∧
        s.createPayOrder userId channelType sourceType goodsId convert random =
          (.ok (s.nextId random), { s with
            playerOrderWaitTime := Function.update s.playerOrderWaitTime userId
              (some (s.now + s.createOrderWaitTime))
            lastPayOrderDate := some (serviceDay 0 s.now)
            lastPayOrderTodayIndex := s.nextIndex }.insertOrder o assets) := by
  unfold createPayOrder
  cases channelType.filter (· ∈ s.channelTypes) with
  | none => exact .inl ⟨_, rfl⟩
  | some channelType =>
      cases s.shopingGoodsConfig goodsId with
      | none => exact .inl ⟨_, rfl⟩
      | some goods =>
          dsimp only
          split
          · exact .inl ⟨_, rfl⟩
          split
          · exact .inl ⟨_, rfl⟩
          split
          · exact .inl ⟨_, rfl⟩
          · exact .inr ⟨_, _, rfl, rfl, rfl⟩

end Tables

end JyQipai.Payment
