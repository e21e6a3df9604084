import JyQipai.AssetManage.Account
import JyQipai.Lib.Amounts

/-!
# The operations on the assets

Checks, locks, stagings and changes of `asset_manage.lua`.  An operation is a
handler: it may raise an error half way, and `change_asset_multi` waits for the
data service when it creates an object.
-/

namespace JyQipai.AssetManage

open JyQipai.Lib

abbrev Op (α : Type) := Handler Account Ask Answer α

namespace Account

/-! ## Checks and locks -/

/-- A table of amounts, such as `deduct_asset`. -/
abbrev Table := Amounts AssetType Int

def fail (next : Op α) : Op α := fun s => if s.debug then .raised s else next s

def consumeLoop : List Asset → Table → Op (Int × Table)
  | [], d, s => .done s (0, d)
  | a :: l, d, s =>
      let t := a.assetType
      let my := s.myValue t
      if t = "jipaiqi" then .raised s
      else
        match a.condiType with
        | some .consume =>
            if my < a.value then .done s (assetError t, d)
            else if isObjectAsset t then
              match s.playerObjectNum t with
              | none => .raised s
              | some n => consumeLoop l d (s.setNum t (n - a.value))
            else consumeLoop l (d.add t a.value) (s.setAsset t (my - a.value))
        | some .equal =>
            if my ≠ a.value then .done s (assetError t, d) else consumeLoop l d s
        | some .greater =>
            if my < a.value then .done s (assetError t, d) else consumeLoop l d s
        | some .less =>
            if a.value < my then .done s (assetError t, d) else consumeLoop l d s
        | _ => fail (consumeLoop l d) s

def giveBack : List (AssetType × Int) → Op Unit
  | [], s => .done s ()
  | (t, v) :: d, s =>
      if isObjectAsset t then
        match s.playerObjectNum t with
        | none => .raised s
        | some n => giveBack d (s.setNum t (n + v))
      else giveBack d (s.addAsset t v)

def assetVerifyConsume (l : List Asset) : Op Int := fun s =>
  (consumeLoop l .empty s).bind fun (code, d) s =>
    if code ≠ 0 then (giveBack d.entries s).bind fun _ s => .done s code else .done s code

def createLockId (s : Account) : Int := s.now % 1524130583 + s.assetLockedDatasCount

def takeLock (s : Account) (l : List Asset) : Account :=
  { s with
    assetLockedDatas := Function.update s.assetLockedDatas s.createLockId (some l)
    assetLockedDatasCount := s.assetLockedDatasCount + 1 }

def assetLock (l : List Asset) : Op (Int × Int) := fun s =>
  (assetVerifyConsume l s).bind fun code s =>
    if 0 < code then .done s (code, 0) else .done (s.takeLock l) (0, s.createLockId)

def dropLock (s : Account) (id : Int) : Account :=
  { s with
    assetLockedDatas := Function.update s.assetLockedDatas id none
    assetLockedDatasCount := s.assetLockedDatasCount - 1 }

def giveBackAll : List Asset → Account → Account
  | [], s => s
  | a :: l, s =>
      giveBackAll l (if a.condiType = some .consume then s.addAsset a.assetType a.value else s)

def assetUnlock (id : Int) : Op Int := fun s =>
  match s.assetLockedDatas id with
  | some l => .done ((giveBackAll l s).dropLock id) 0
  | none => .done s 2101

/-! ## Objects -/

def validTime (o : Obj) : Int := (o.attr.lookup "valid_time").getD 0

def getLatelyObjectData (s : Account) (t : AssetType) (n : Int) : Option (List ObjectId) :=
  match s.playerObjectId t with
  | none => none
  | some _ =>
      let ods := s.objectData.filter (·.2.objectType = t)
      if n < ods.length then
        let ods := (ods.insertionSort fun a b => validTime a.2 ≤ validTime b.2).map (·.1)
        some (if n < 0 then ods else ods.take n.toNat)
      else some (ods.map (·.1))

def save (saveDb : Bool) (m : Sent) (s : Account) : Account :=
  if saveDb then s.send m else s

def deleteObj (id : ObjectId) (obj : Obj) (t : Option AssetType)
    (saveDb isNotChangeNum : Bool) : Op Unit := fun s =>
  let s := (save saveDb (.changeObject id obj.objectType none) s).dropObject id
  if isNotChangeNum then .done s ()
  else
    match t with
    | none => .raised s
    | some t =>
        match s.playerObjectNum t with
        | none => .raised s
        | some n => .done (s.setNum t (n - 1)) ()

/-- The part of `change_obj` that adds an object, once it has an id. -/
def addObj (t : AssetType) (attr : Attribute) (isNotChangeNum : Bool)
    (id : Option ObjectId) : Op Unit := fun s =>
  let s := if isNotChangeNum then s else s.setNum t ((s.playerObjectNum t).getD 0 + 1)
  match id with
  | none => .raised s
  | some id =>
      .done { s.putObject id ⟨t, attr⟩ with
        playerObjectId := Function.update s.playerObjectId t (some id) } ()

def changeObj (o : ObjData) (saveDb isNotChangeNum : Bool) : Op Unit := fun s =>
  match s.object o.objectId with
  | some (id, obj) =>
      match o.attr with
      | some [] => .done s ()
      | some attr =>
          .done ((save saveDb (.changeObject id obj.objectType (some attr)) s).putObject id
            { obj with attr := attr }) ()
      | none => deleteObj id obj o.objectType saveDb isNotChangeNum s
  | none =>
      match o.attr, o.objectType with
      | some (x :: xs), some t =>
          if saveDb then
            .call s (.changeObject t (x :: xs)) fun
              | .object id, s => addObj t (x :: xs) isNotChangeNum (some id) s
              | _, s => .raised s
          else addObj t (x :: xs) isNotChangeNum o.objectId s
      | _, _ => .done s ()

def deleteObjects (t : AssetType) : List ObjectId → List Obj → Op (List Obj)
  | [], objs, s => .done s objs
  | id :: ids, objs, s =>
      (changeObj { objectType := some t, objectId := some id } true true s).bind
        fun _ => deleteObjects t ids (objs ++ ((s.object (some id)).map (·.2)).toList)

def commitAll : List Asset → Option (List Obj) → Op (Option (List Obj))
  | [], objs, s => .done s objs
  | a :: l, objs, s =>
      if a.condiType = some .consume then
        if isObjectAsset a.assetType then
          match s.getLatelyObjectData a.assetType a.value with
          | none => .raised s
          | some ids =>
              (deleteObjects a.assetType ids [] s).bind fun objs => commitAll l (some objs)
        else
          commitAll l objs
            (if a.value ≠ 0 then s.send (.changeAsset a.assetType (-a.value)) else s)
      else commitAll l objs s

def assetCommit (id : Int) : Op (Int × Option (List Obj)) := fun s =>
  match s.assetLockedDatas id with
  | some l => (commitAll l none s).bind fun objs s => .done (s.dropLock id) (0, objs)
  | none => .done s (2100, none)

/-! ## Stagings -/

def addAll : List Asset → Account → Account
  | [], s => s
  | a :: l, s => addAll l (s.addAsset a.assetType a.value)

def assetStaging (l : List Asset) : Op Nat := fun s =>
  let id := s.assetStagingDataCount + 1
  let s := addAll l { s with assetStagingDataCount := id }
  .done { s with assetStagingData := Function.update s.assetStagingData id (some l) } id

def mergeStaged : List Nat → Table → Account → Table × Account
  | [], d, s => (d, s)
  | id :: ids, d, s =>
      match s.assetStagingData id with
      | some l =>
          mergeStaged ids (l.foldl (fun d a => d.add a.assetType a.value) d)
            { s with assetStagingData := Function.update s.assetStagingData id none }
      | none => mergeStaged ids d s

def sendAll : List (AssetType × Int) → Account → Account
  | [], s => s
  | (t, v) :: d, s => sendAll d (if v ≠ 0 then s.send (.changeAsset t v) else s)

def assetMergeCommit (ids : List Nat) : Op Unit := fun s =>
  let (d, s) := mergeStaged ids .empty s
  .done (sendAll d.entries s) ()

/-! ## Changes -/

def jipaiqiTime (s : Account) (day : Int) : Option Int :=
  match s.playerObjectId "jipaiqi" with
  | none => some (s.now + day * 3600 * 24)
  | some id =>
      let time := match s.object (some id) with
        | some (_, o) => o.attr.lookup "valid_time"
        | none => some 0
      time.map fun time =>
        if time < s.now then s.now + day * 3600 * 24 else time + day * 3600 * 24

def changeObjs (o : ObjData) (saveDb : Bool) : Nat → Op Unit
  | 0, s => .done s ()
  | n + 1, s => (changeObj o saveDb false s).bind fun _ => changeObjs o saveDb n

def changeOne (saveDb : Bool) : Change → Op Unit
  | .amount a objectId, s =>
      if a.condiType = none ∨ a.condiType = some .consume then
        if a.value = 0 ∨ isDressAsset a.assetType then .done s ()
        else if a.assetType = "jipaiqi" then
          match s.jipaiqiTime a.value with
          | none => .raised s
          | some time =>
              changeObj {
                objectType := some "jipaiqi"
                objectId := s.playerObjectId "jipaiqi" <|> objectId
                attr := some [("valid_time", time)] } saveDb false s
        else
          .done (save saveDb (.changeAsset a.assetType a.value)
            (s.addAsset a.assetType a.value)) ()
      else .done s ()
  | .object t objectId attr num condi, s =>
      if condi = none ∨ condi = some .consume then
        if t = "jipaiqi" then .raised s
        else changeObjs ⟨some t, objectId, attr⟩ saveDb (num.getD 1) s
      else .done s ()

def changeAssetMulti (saveDb : Bool) : List Change → Op Unit
  | [], s => .done s ()
  | c :: l, s => (changeOne saveDb c s).bind fun _ => changeAssetMulti saveDb l

def queryAssetByType (s : Account) (t : AssetType) : Int :=
  match s.assetDatas t with
  | some n => n
  | none =>
      match s.playerObjectId t with
      | some _ => (s.playerObjectNum t).getD 0
      | none => 0

end Account

end JyQipai.AssetManage
