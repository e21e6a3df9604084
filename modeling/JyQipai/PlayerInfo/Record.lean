import JyQipai.DataService.Exec

/-!
# Player records

The cache of `player_info.lua` has one record for each player, with a part for each table
of the database.  A change of a record gives the new record and the SQL texts that it
pushes to the write queues.
-/

namespace JyQipai.PlayerInfo

open DataService (QueueName)

abbrev UserId := String

inductive Value where
  | number (n : Int)
  | text (t : String)
  deriving DecidableEq, Repr

def Value.number? : Value → Option Int
  | .number n => some n
  | .text _ => none

abbrev Fields := String → Option Value

def Fields.put (f : Fields) (name : String) (v : Value) : Fields :=
  Function.update f name (some v)

def Fields.putAll (f : Fields) (columns : List (String × Value)) : Fields :=
  columns.foldl (fun f c => f.put c.1 c.2) f

inductive PlainTable where
  | playerInfo
  | playerAsset
  | playerDeviceInfo
  | playerRegister
  | playerAlipayAccount
  deriving DecidableEq, Repr

inductive KeyedTable where
  | playerProp
  | playerOpenId
  deriving DecidableEq, Repr

inductive Table where
  | plain (table : PlainTable)
  | keyed (table : KeyedTable)
  deriving DecidableEq, Repr

def KeyedTable.subKey : KeyedTable → String
  | .playerProp => "prop_type"
  | .playerOpenId => "app_id"

structure ObjectData where
  objectId : String
  objectType : String
  attributes : Option Fields

structure User where
  plain : PlainTable → Option Fields := fun _ => none
  keyed : KeyedTable → Option (Value → Option Fields) := fun _ => none
  objectData : List ObjectData := []

/-- What a text on a write queue does to the tables; `insertOther` is a row of a table that is
not looked at here, such as a log. -/
inductive Statement where
  | insert (table : PlainTable) (columns : List (String × Value))
  | update (table : PlainTable) (set : List (String × Value))
  | setProp (type : String) (count : Int)
  | addProp (type : String) (count change : Int)
  | deleteProp (type : String)
  | insertOther
  deriving DecidableEq, Repr

abbrev Sql := List Statement

def queueOf (fast : Bool) : QueueName := if fast then .fast else .slow

/-- What a function leaves behind; `none` is a raised error, and `some none` stands for
`nil`. -/
structure Effect (ρ : Type) where
  user : User
  sqls : List (QueueName × Sql) := []
  result : Option (Option ρ)

def Effect.fail {ρ : Type} (debug : Bool) (user : User) : Effect ρ :=
  { user, result := if debug then none else some none }

namespace User

def setPlain (user : User) (table : PlainTable) (fields : Fields) : User :=
  { user with plain := Function.update user.plain table (some fields) }

def setKeyed (user : User) (table : KeyedTable) (rows : Value → Option Fields) : User :=
  { user with keyed := Function.update user.keyed table (some rows) }

def number? (user : User) (table : PlainTable) (name : String) : Option Int :=
  (user.plain table).bind fun tdata => (tdata name).bind Value.number?

def propCount (user : User) (type : String) : Int :=
  ((user.keyed .playerProp).bind fun props => (props (.text type)).bind fun prop =>
    (prop "prop_count").bind Value.number?).getD 0

end User

/-! ## Reading rows -/

/-- The loop over the rows in `gen_cache_data` when there is a sub key; a row without the
sub key raises an error. -/
def genSubData (subKey : String) :
    (Value → Option Fields) → List (List (String × Value)) → Option (Value → Option Fields)
  | data, [] => some data
  | data, row :: rows =>
      match (Fields.putAll (fun _ => none) row) subKey with
      | none => none
      | some key =>
          genSubData subKey
            (Function.update data key (some (((data key).getD fun _ => none).putAll row))) rows

def genCacheData (debug : Bool) (user : User) (rows : List (List (String × Value))) :
    Table → Option User
  | .keyed table =>
      (genSubData table.subKey ((user.keyed table).getD fun _ => none) rows).map
        (user.setKeyed table)
  | .plain table =>
      let data := (user.plain table).getD fun _ => none
      match rows with
      | [] => some (user.setPlain table data)
      | [row] => some (user.setPlain table (data.putAll row))
      | row :: _ => if debug then none else some (user.setPlain table (data.putAll row))

/-! ## Shop gold -/

/-- `SHOP_GOLD_PROPTYPES`, from the largest face to the smallest. -/
def shopGoldFaces : List (Int × String) :=
  [(10000, "shop_gold_10000"), (1000, "shop_gold_1000"), (100, "shop_gold_100"),
    (10, "shop_gold_10")]

def regroupFaces : Int → List (Int × String) → String → Option Int
  | _, [] => fun _ => none
  | gold, (value, type) :: faces =>
      if value ≤ gold then
        Function.update (regroupFaces (gold % value) faces) type (some (gold / value))
      else regroupFaces gold faces

def regroupShopGold (gold : Int) : String → Option Int := regroupFaces gold shopGoldFaces

def regroupFace (golds : String → Option Int) (props : Value → Option Fields)
    (type : String) : (Value → Option Fields) × Statement :=
  let prop := (props (.text type)).getD (Fields.put (fun _ => none) "prop_type" (.text type))
  let count := (golds type).getD 0
  (Function.update props (.text type) (some (prop.put "prop_count" (.number count))),
    if 0 < count then .setProp type count else .deleteProp type)

def regroupProps (golds : String → Option Int) :
    (Value → Option Fields) → List (Int × String) → (Value → Option Fields) × Sql
  | props, [] => (props, [])
  | props, (_, type) :: faces =>
      let (props, sql) := regroupFace golds props type
      let (props, sqls) := regroupProps golds props faces
      (props, sql :: sqls)

def regroupShopGoldFace (user : User) (newValue : Int) : Option (User × Sql) :=
  (user.keyed .playerProp).map fun props =>
    let (props, sqls) := regroupProps (regroupShopGold newValue) props shopGoldFaces
    (user.setKeyed .playerProp props, sqls)

/-! ## Changes -/

def changePlayerAsset (debug : Bool) (user : User) (table : PlainTable) (field : String)
    (inc : Int) (fast : Bool) : Effect Int :=
  match user.plain table with
  | none => .fail debug user
  | some tdata =>
      match (tdata field).bind Value.number? with
      | none => { user, result := none }
      | some n =>
          let user := user.setPlain table (tdata.put field (.number (n + inc)))
          let sqls := [(queueOf fast, [Statement.update table [(field, .number (n + inc))]])]
          if field = "shop_gold_sum" then
            match regroupShopGoldFace user (n + inc) with
            | none => { user, sqls, result := none }
            | some (user, faces) =>
                { user
                  sqls := sqls ++ [(.fast, faces)]
                  result := some (some (n + inc)) }
          else { user, sqls, result := some (some (n + inc)) }

theorem changePlayerAsset_number? {debug : Bool} {user : User} {table : PlainTable}
    {field : String} {inc : Int} {fast : Bool} {n : Int}
    (h : user.number? table field = some n) (other : PlainTable) (name : String) :
    (changePlayerAsset debug user table field inc fast).user.number? other name =
      if other = table ∧ name = field then some (n + inc) else user.number? other name := by
  unfold User.number? at h
  obtain ⟨tdata, htable, hfield⟩ := Option.bind_eq_some_iff.mp h
  have hput : (user.setPlain table (tdata.put field (.number (n + inc)))).number? other name =
      if other = table ∧ name = field then some (n + inc) else user.number? other name := by
    unfold User.number? User.setPlain Fields.put
    dsimp only
    by_cases ho : other = table
    · subst ho
      rw [Function.update_self, htable]
      by_cases hn : name = field
      · subst hn
        simp [Value.number?]
      · simp [hn]
    · simp [ho]
  unfold changePlayerAsset
  simp only [htable, hfield]
  split
  · split
    · exact hput
    · rename_i regrouped faces hregroup
      obtain ⟨props, -, heq⟩ := Option.map_eq_some_iff.mp hregroup
      rw [Prod.mk.injEq] at heq
      rw [← heq.1]
      exact hput
  · exact hput

theorem changePlayerAsset_none {debug : Bool} {user : User} {table : PlainTable}
    {field : String} {inc : Int} {fast : Bool} (h : user.number? table field = none) :
    (changePlayerAsset debug user table field inc fast).user = user := by
  unfold changePlayerAsset
  cases htable : user.plain table with
  | none => rfl
  | some tdata =>
      have hfield : (tdata field).bind Value.number? = none := by
        rw [User.number?, htable] at h
        exact h
      simp only [hfield]

end JyQipai.PlayerInfo
