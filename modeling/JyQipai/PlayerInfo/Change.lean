import JyQipai.PlayerInfo.Record

/-!
# The commands that change a record

Each command gives the new record and the texts that it pushes.  The texts of the logs are
there, but not what they say.
-/

namespace JyQipai.PlayerInfo

open DataService (QueueName)

/-! ## Assets -/

/-- The part of `change_diamond` and its like behind `change_player_asset`: the log. -/
def logChange (real : Bool) (effect : Effect Int) : Effect Bool :=
  match effect.result with
  | none => { user := effect.user, sqls := effect.sqls, result := none }
  | some none => { user := effect.user, sqls := effect.sqls, result := some (some false) }
  | some (some _) =>
      { user := effect.user
        sqls := effect.sqls ++ if real then [(.slow, [Statement.insertOther])] else []
        result := some (some true) }

/-- `change_cash`, `change_diamond`, `change_jing_bi` and `change_shop_gold_sum`, which
differ in the column only. -/
def changeCoin (debug real : Bool) (user : User) (column : String) (change : Int) :
    Effect Bool :=
  logChange real (changePlayerAsset debug user .playerAsset column change true)

def changeProp (debug : Bool) (user : User) (id : UserId) (type : String) (change : Int) :
    Effect Bool :=
  if change = 0 then { user, result := some (some true) }
  else
    match user.keyed .playerProp with
    | none => { user, result := none }
    | some props =>
        let prop := (props (.text type)).getD (Fields.putAll (fun _ => none)
          [("prop_count", .number 0), ("id", .text id), ("prop_type", .text type)])
        let user := user.setKeyed .playerProp
          (Function.update props (.text type) (some prop))
        match (prop "prop_count").bind Value.number? with
        | none => { user, result := none }
        | some count =>
            if count + change < 0 then .fail debug user
            else
              { user := user.setKeyed .playerProp (Function.update props (.text type)
                  (some (prop.put "prop_count" (.number (count + change)))))
                sqls := [(.fast, [.addProp type (count + change) change]),
                  (.slow, [.insertOther])]
                result := some (some true) }

def faceValue (type : String) : Option Int :=
  (shopGoldFaces.find? fun face => face.2 = type).map Prod.fst

def changeAsset (debug real : Bool) (user : User) (id : UserId) (type : String)
    (change : Int) : Effect Bool :=
  if type ∈ ["diamond", "jing_bi", "cash", "shop_gold_sum"] then
    changeCoin debug real user type change
  else
    match faceValue type with
    | some value => changeCoin debug real user "shop_gold_sum" (value * change)
    | none => changeProp debug user id type change

/-! ## Other columns -/

/-- The loop over given columns that puts what is new into the cache, and collects it for
the `set` clause. -/
def changeFields : Fields → List (String × Value) → Fields × List (String × Value)
  | fields, [] => (fields, [])
  | fields, (name, v) :: rest =>
      if fields name = some v then changeFields fields rest
      else
        let (fields, set) := changeFields (fields.put name v) rest
        (fields, (name, v) :: set)

def changes (fields : Fields) (columns : List (String × Value)) : Bool :=
  columns.any fun c => fields c.1 ≠ some c.2

def updateBasePlayerInfo (user : User) (data : List (String × Value)) (seq : Int) :
    Effect Bool :=
  match user.plain .playerInfo with
  | none => { user, result := if data = [] then some none else none }
  | some info =>
      if changes info data = false then { user, result := some none }
      else
        let data := data.filter (fun c => c.1 ≠ "sync_seq") ++ [("sync_seq", .number seq)]
        let (info, set) := changeFields info data
        { user := user.setPlain .playerInfo info
          sqls := if set = [] then [] else [(.slow, [.update .playerInfo set])]
          result := some (some true) }

def modifyPlayerInfo (debug : Bool) (user : User) (id : UserId) (table : PlainTable)
    (values : List (String × Value)) (fast notIncSeq : Bool) (seq : Int) : Effect Int :=
  if values = [] then { user, result := some (some 1001) }
  else if table = .playerAsset then { user, result := some (some 1001) }
  else
    match user.plain table with
    | none => { user, result := if debug then none else some (some 1001) }
    | some tdata =>
        if (tdata "id").isSome then
          let (tdata, set) := changeFields tdata values
          if set = [] then { user, result := some (some 0) }
          else
            { user := user.setPlain table tdata
              sqls := [(queueOf fast, [.update table
                (if notIncSeq then set else set ++ [("sync_seq", .number seq)])])]
              result := some (some 0) }
        else
          let columns := ("id", Value.text id) :: values
          { user := user.setPlain table (tdata.putAll columns)
            sqls := [(queueOf fast, [.insert table columns])]
            result := some (some 0) }

def createColumns (id : UserId) (robot : Bool) (data : List (String × Value)) (seq : Int) :
    List (String × Value) :=
  data.filter (fun c => c.1 ∉ ["id", "sync_seq", "kind", "name"]) ++
    [("id", .text id), ("sync_seq", .number seq),
      ("kind", .text (if robot then "robot" else "normal")),
      ("name", (data.lookup "name").getD (.text "未登录用户"))]

def newAssets (id : UserId) : List (String × Value) :=
  [("id", .text id), ("diamond", .number 0), ("shop_ticket", .number 0), ("cash", .number 0),
    ("jing_bi", .number 0), ("shop_gold_sum", .number 0)]

/-- `create_player_info`, from where the id is known; `register` are the columns of
`_register_data` in the cache, and `registered` those that are inserted. -/
def createPlayerInfo (id : UserId) (robot : Bool) (data register registered :
    List (String × Value)) (seq : Int) : Effect UserId :=
  let empty : Fields := fun _ => none
  { user :=
      { plain := fun
          | .playerInfo => some (empty.putAll (createColumns id robot data seq))
          | .playerAsset => some (empty.putAll (newAssets id))
          | .playerDeviceInfo => some empty
          | .playerRegister => some (empty.putAll register)
          | .playerAlipayAccount => none
        keyed := fun
          | .playerProp => some fun _ => none
          | .playerOpenId => none }
    sqls := [(.fast, [.insert .playerInfo (createColumns id robot data seq), .insertOther,
      .insert .playerRegister registered, .insert .playerAsset [("id", .text id)]])]
    result := some (some id) }

end JyQipai.PlayerInfo
