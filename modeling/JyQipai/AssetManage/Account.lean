import JyQipai.Lib.Coroutine

/-!
# The assets of a player

The account that a player's agent keeps, from `asset_manage.lua`: amounts in
`asset_datas`, the single objects in `object_data` with their numbers in
`player_object_num`, the locked and the staged assets.  `sent` records what was
sent to the data service.
-/

namespace JyQipai.AssetManage

open JyQipai.Lib

abbrev AssetType := String

abbrev ObjectId := String

/-- `NOR_CONDITION_TYPE` -/
inductive CondiType where
  | consume
  | equal
  | greater
  | less
  | notEqual
  deriving DecidableEq, Repr

structure Asset where
  assetType : AssetType
  value : Int
  condiType : Option CondiType := none
  deriving DecidableEq, Repr

/-- The named numbers of an object, such as `valid_time`. -/
abbrev Attribute := List (String × Int)

structure Obj where
  objectType : AssetType
  attr : Attribute
  deriving DecidableEq, Repr

/-- The argument of `change_obj`. -/
structure ObjData where
  objectType : Option AssetType
  objectId : Option ObjectId := none
  attr : Option Attribute := none
  deriving DecidableEq, Repr

/-- An entry of the list of `change_asset_multi`.  Its value is a number, or else
the id of an object. -/
inductive Change where
  | amount (a : Asset) (objectId : Option ObjectId)
  | object (assetType : AssetType) (objectId : Option ObjectId)
    (attr : Option Attribute) (num : Option Nat) (condiType : Option CondiType)
  deriving DecidableEq, Repr

inductive Sent where
  | changeAsset (assetType : AssetType) (value : Int)
  | changeObject (objectId : ObjectId) (objectType : AssetType)
    (attr : Option Attribute)
  deriving DecidableEq, Repr

/-- A row of the shop.  `use` is its `use_type` with its `use_count`; rows that are
not exchanged have neither. -/
structure Good where
  use : Option (AssetType × Int) := none
  num : Int
  giftAssetType : Option (List AssetType) := none
  giftAssetCount : List Int := []
  group : Option String := none
  deriving DecidableEq, Repr

/-- `shoping_config`: the rows by their type and id. -/
abbrev ShopConfig := List (AssetType × List (Int × Good))

inductive Ask where
  | changeObject (objectType : AssetType) (attr : Attribute)
  | getConfig (version : Int)
  | checkLotteryStatus (time jingBi : Int)
  | lotteryExpression (type : AssetType) (time : Int)
  | lotteryLuckBox (id jingBi : Int)
  deriving DecidableEq, Repr

inductive Answer where
  | object (id : ObjectId)
  | config (c : Option (ShopConfig × Int))
  | status (n : Int)
  | lottery (assetData : List Change)
  | luckBox (consume : Int) (assets : Change)
  deriving DecidableEq, Repr

/-- The data of `asset_manage`, and the clock.  `debug` is the environment
variable of `skynet.fail`. -/
structure Account where
  assetDatas : AssetType → Option Int := fun _ => none
  playerObjectId : AssetType → Option ObjectId := fun _ => none
  playerObjectNum : AssetType → Option Int := fun _ => none
  objectData : List (ObjectId × Obj) := []
  assetLockedDatas : Int → Option (List Asset) := fun _ => none
  assetLockedDatasCount : Int := 0
  assetStagingData : Nat → Option (List Asset) := fun _ => none
  assetStagingDataCount : Nat := 0
  actLock : Bool := false
  shopingConfig : ShopConfig := []
  shopingConfigVersion : Int := 0
  now : Int := 0
  debug : Bool := false
  sent : List Sent := []

/-- `asset_type_error_enum_map`, with the code for all other assets. -/
def assetError (t : AssetType) : Int :=
  if t = "diamond" then 1011
  else if t = "cash" then 1013
  else if t = "jing_bi" then 1023
  else if t = "shop_gold_sum" then 1024
  else if t = "room_card" then 1026
  else 1012

def isObjectAsset (t : AssetType) : Bool := 4 < t.length && t.startsWith "obj_"

def isDressAsset (t : AssetType) : Bool :=
  (11 < t.length && t.startsWith "expression_") ||
    (7 < t.length && t.startsWith "phrase_") ||
    (11 < t.length && t.startsWith "head_frame_")

namespace Account

def myValue (s : Account) (t : AssetType) : Int :=
  (s.assetDatas t <|> s.playerObjectNum t).getD 0

def setAsset (s : Account) (t : AssetType) (n : Int) : Account :=
  { s with assetDatas := Function.update s.assetDatas t (some n) }

def setNum (s : Account) (t : AssetType) (n : Int) : Account :=
  { s with playerObjectNum := Function.update s.playerObjectNum t (some n) }

def addAsset (s : Account) (t : AssetType) (n : Int) : Account :=
  s.setAsset t ((s.assetDatas t).getD 0 + n)

def send (s : Account) (m : Sent) : Account := { s with sent := s.sent ++ [m] }

def object (s : Account) (id : Option ObjectId) : Option (ObjectId × Obj) :=
  id.bind fun id => s.objectData.find? (·.1 = id)

def putObject (s : Account) (id : ObjectId) (o : Obj) : Account :=
  { s with objectData := (id, o) :: s.objectData.filter (·.1 ≠ id) }

def dropObject (s : Account) (id : ObjectId) : Account :=
  { s with objectData := s.objectData.filter (·.1 ≠ id) }

end Account

end JyQipai.AssetManage
