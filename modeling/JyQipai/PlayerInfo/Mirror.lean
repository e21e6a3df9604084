import JyQipai.PlayerInfo.Change
import JyQipai.Lib.Commute
import JyQipai.Lib.Reach

/-!
# The cache and the database

The texts of a player wait on two queues, and each queue is executed in its own order.  If
all texts were executed in the order in which they were pushed, the rows would follow the
record.  A text that is executed before an older one of the other queue does no harm if
they write to different columns.
-/

namespace JyQipai.PlayerInfo

open Lib DataService

structure Rows where
  plain : PlainTable → Option Fields := fun _ => none
  prop : String → Option Int := fun _ => none

def defaults : PlainTable → Fields
  | .playerInfo => Fields.putAll (fun _ => none)
      [("sync_seq", .number 0), ("kind", .text "normal"), ("name", .text "未登陆用户"),
        ("head_image", .text "http://jydown.jyhd919.cn/head_images/icon_128.png"),
        ("sex", .number 1), ("sign", .text "这家伙很懒，什么也没留下。"),
        ("is_block", .number 0), ("logined", .number 0)]
  | .playerAsset => Fields.putAll (fun _ => none)
      [("diamond", .number 0), ("jing_bi", .number 0), ("shop_ticket", .number 0),
        ("cash", .number 0), ("shop_gold_sum", .number 0)]
  | _ => fun _ => none

namespace Statement

def table? : Statement → Option PlainTable
  | .insert table _ | .update table _ => some table
  | _ => none

def prop? : Statement → Option String
  | .setProp type _ | .addProp type _ _ | .deleteProp type => some type
  | _ => none

/-- The row after the statement; a row that exists is not inserted again, and one that does
not is not updated. -/
def row : Statement → Option Fields → Option Fields
  | .insert table columns, row => some (row.getD ((defaults table).putAll columns))
  | .update _ set, row => row.map fun row => row.putAll set
  | _, row => row

def count : Statement → Option Int → Option Int
  | .setProp _ count, _ => some count
  | .addProp _ count change, n => some (n.elim count (· + change))
  | .deleteProp _, _ => none
  | _, n => n

def exec (x : Statement) (rows : Rows) : Rows where
  plain table := if x.table? = some table then x.row (rows.plain table) else rows.plain table
  prop type := if x.prop? = some type then x.count (rows.prop type) else rows.prop type

def overlaps : Statement → Statement → Bool
  | .update table set, .update table' set' =>
      table = table' && set.any fun c => set'.any fun c' => c.1 = c'.1
  | x, y => (x.table?.isSome && x.table? = y.table?) || (x.prop?.isSome && x.prop? = y.prop?)

end Statement

def Sql.exec (sql : Sql) (rows : Rows) : Rows := applyAll Statement.exec sql rows

def Sql.overlaps (a b : Sql) : Bool := a.any fun x => b.any fun y => x.overlaps y

/-! ## Statements that do not overlap -/

theorem putAll_cons (f : Fields) (c : String × Value) (columns : List (String × Value)) :
    f.putAll (c :: columns) = (f.put c.1 c.2).putAll columns := rfl

theorem putAll_append (f : Fields) (a b : List (String × Value)) :
    f.putAll (a ++ b) = (f.putAll a).putAll b := by
  unfold Fields.putAll
  rw [List.foldl_append]

theorem putAll_put {f : Fields} {name : String} {v : Value} {columns : List (String × Value)}
    (h : ∀ c ∈ columns, c.1 ≠ name) :
    (f.put name v).putAll columns = (f.putAll columns).put name v := by
  induction columns generalizing f with
  | nil => rfl
  | cons c columns ih =>
      have hcomm : (f.put name v).put c.1 c.2 = (f.put c.1 c.2).put name v :=
        Function.update_comm (h c (List.mem_cons_self ..)).symm _ _ _
      rw [putAll_cons, putAll_cons, hcomm,
        ih fun d hd => h d (List.mem_cons_of_mem _ hd)]

theorem putAll_comm {f : Fields} {a b : List (String × Value)}
    (h : ∀ x ∈ a, ∀ y ∈ b, x.1 ≠ y.1) :
    (f.putAll a).putAll b = (f.putAll b).putAll a := by
  induction a generalizing f with
  | nil => rfl
  | cons x a ih =>
      rw [putAll_cons, ih fun z hz => h z (List.mem_cons_of_mem _ hz),
        putAll_put fun y hy => (h x (List.mem_cons_self ..) y hy).symm, putAll_cons]

theorem row_update_comm {table table' : PlainTable} {set set' : List (String × Value)}
    (h : ∀ x ∈ set, ∀ y ∈ set', x.1 ≠ y.1) (row : Option Fields) :
    (Statement.update table set).row ((Statement.update table' set').row row) =
      (Statement.update table' set').row ((Statement.update table set).row row) := by
  cases row with
  | none => rfl
  | some row =>
      change some ((row.putAll set').putAll set) = some ((row.putAll set).putAll set')
      rw [putAll_comm h]

theorem apart_of_not_overlaps {a b : Statement} (h : a.overlaps b = false) :
    (∀ table, a.table? = some table → b.table? = some table → ∀ row,
      a.row (b.row row) = b.row (a.row row)) ∧
    ∀ type, a.prop? = some type → b.prop? ≠ some type := by
  have hrest (h : ((a.table?.isSome && a.table? = b.table?) ||
      (a.prop?.isSome && a.prop? = b.prop?)) = false) :
      (∀ table, a.table? = some table → b.table? ≠ some table) ∧
        ∀ type, a.prop? = some type → b.prop? ≠ some type := by
    rw [Bool.or_eq_false_iff] at h
    exact ⟨fun table ha hb => by simp [ha, hb] at h, fun type ha hb => by simp [ha, hb] at h⟩
  cases a with
  | update table set =>
      cases b with
      | update table' set' =>
          refine ⟨fun t ht ht' row => row_update_comm (fun x hx y hy heq => ?_) row,
            fun type htype => by cases htype⟩
          obtain rfl : table = t := Option.some.inj ht
          obtain rfl : table' = table := Option.some.inj ht'
          have hany : (set.any fun c => set'.any fun c' => c.1 = c'.1) = true :=
            List.any_eq_true.mpr ⟨x, hx, List.any_eq_true.mpr ⟨y, hy, by simp [heq]⟩⟩
          simp [Statement.overlaps, hany] at h
      | _ => exact ⟨fun t ht ht' => absurd ht' ((hrest h).1 t ht), (hrest h).2⟩
  | _ => exact ⟨fun t ht ht' => absurd ht' ((hrest h).1 t ht), (hrest h).2⟩

theorem commutes_of_not_overlaps {a b : Statement} (h : a.overlaps b = false) :
    Commutes Statement.exec a b := by
  intro rows
  obtain ⟨hrow, hprop⟩ := apart_of_not_overlaps h
  unfold Statement.exec
  rw [Rows.mk.injEq]
  refine ⟨funext fun table => ?_, funext fun type => ?_⟩
  · by_cases ha : a.table? = some table
    · by_cases hb : b.table? = some table
      · simp only [ha, hb, if_true]
        exact hrow table ha hb _
      · simp only [ha, hb, if_true, if_false]
    · simp only [ha, if_false]
  · by_cases ha : a.prop? = some type
    · simp only [ha, hprop type ha, if_true, if_false]
    · simp only [ha, if_false]

theorem commutes_sql {a b : Sql} (h : a.overlaps b = false) : Commutes Sql.exec a b := by
  refine commutes_applyAll fun x hx y hy => commutes_of_not_overlaps ?_
  unfold Sql.overlaps at h
  rw [List.any_eq_false] at h
  have hxy := h x hx
  rw [Bool.not_eq_true, List.any_eq_false] at hxy
  exact Bool.eq_false_iff.mpr (hxy y hy)

/-! ## The record and the rows -/

def Agrees (cache row : Option Fields) : Prop :=
  ∀ name v, cache.bind (· name) = some v → row.bind (· name) = some v

/-- Every cached column of the two tables is in the row, and the counts of the props are the
same; a missing row counts nothing. -/
structure Mirrors (user : User) (rows : Rows) : Prop where
  info : Agrees (user.plain .playerInfo) (rows.plain .playerInfo)
  asset : Agrees (user.plain .playerAsset) (rows.plain .playerAsset)
  prop : ∀ type, (rows.prop type).getD 0 = user.propCount type

def execAll (sqls : List (QueueName × Sql)) (rows : Rows) : Rows :=
  applyAll Sql.exec (sqls.map Prod.snd) rows

theorem execAll_append (a b : List (QueueName × Sql)) (rows : Rows) :
    execAll (a ++ b) rows = execAll b (execAll a rows) := by
  unfold execAll
  rw [List.map_append, applyAll_append]

/-- The rows follow the record when the texts of the effect are executed. -/
def Effect.Follows {ρ : Type} (effect : Effect ρ) (user : User) : Prop :=
  ∀ rows, Mirrors user rows → Mirrors effect.user (execAll effect.sqls rows)

variable {user : User} {rows : Rows}

theorem agrees_putAll_put {fields : Fields} {row : Fields} (h : Agrees (some fields) (some row))
    (name : String) (v : Value) : Agrees (some (fields.put name v)) (some (row.put name v)) := by
  intro other w hother
  change Function.update fields name (some v) other = some w at hother
  change Function.update row name (some v) other = some w
  by_cases heq : other = name
  · subst heq
    rw [Function.update_self] at hother ⊢
    exact hother
  · rw [Function.update_of_ne heq] at hother ⊢
    exact h other w hother

theorem mirrors_update {table : PlainTable} {fields : Fields} {set : List (String × Value)}
    (h : Mirrors user rows) (hset : table = .playerInfo ∨ table = .playerAsset →
      Agrees (some fields) ((rows.plain table).map fun row => row.putAll set)) :
    Mirrors (user.setPlain table fields) ((Statement.update table set).exec rows) := by
  have hplain (other : PlainTable) (hother : other = .playerInfo ∨ other = .playerAsset)
      (hold : Agrees (user.plain other) (rows.plain other)) :
      Agrees ((user.setPlain table fields).plain other)
        (((Statement.update table set).exec rows).plain other) := by
    change Agrees (Function.update user.plain table (some fields) other)
      (if some table = some other then _ else _)
    by_cases heq : table = other
    · subst heq
      rw [Function.update_self, if_pos rfl]
      exact hset hother
    · rw [Function.update_of_ne (Ne.symm heq), if_neg (fun hsome => heq (Option.some.inj hsome))]
      exact hold
  exact ⟨hplain _ (.inl rfl) h.info, hplain _ (.inr rfl) h.asset, h.prop⟩

/-! ## Props -/

def countIn (props : Value → Option Fields) (type : String) : Int :=
  ((props (.text type)).bind fun prop => (prop "prop_count").bind Value.number?).getD 0

theorem propCount_setKeyed (props : Value → Option Fields) (type : String) :
    (user.setKeyed .playerProp props).propCount type = countIn props type := by
  unfold User.propCount User.setKeyed countIn
  dsimp only
  rw [Function.update_self]
  rfl

theorem propCount_eq {props : Value → Option Fields} (h : user.keyed .playerProp = some props)
    (type : String) : user.propCount type = countIn props type := by
  unfold User.propCount countIn
  rw [h]
  rfl

theorem count_put {props : Value → Option Fields} {prop : Fields} {count : Int}
    {type : String} {x : Statement} (hprop : x.prop? = some type)
    (hcount : (x.count (rows.prop type)).getD 0 = count)
    (h : ∀ other, (rows.prop other).getD 0 = countIn props other) (other : String) :
    ((x.exec rows).prop other).getD 0 = countIn (Function.update props (.text type)
      (some (prop.put "prop_count" (.number count)))) other := by
  change (if x.prop? = some other then _ else _ : Option Int).getD 0 = _
  by_cases heq : type = other
  · subst heq
    rw [if_pos hprop, hcount]
    simp [countIn, Fields.put, Value.number?]
  · rw [if_neg (by rw [hprop]; exact fun hsome => heq (Option.some.inj hsome)), h]
    have hne : Value.text other ≠ .text type := fun hh => heq (Value.text.inj hh).symm
    simp [countIn, Function.update_of_ne hne]

theorem regroupFaces_nonneg {faces : List (Int × String)} (hfaces : ∀ face ∈ faces, 0 < face.1)
    (gold : Int) (type : String) : 0 ≤ (regroupFaces gold faces type).getD 0 := by
  induction faces generalizing gold with
  | nil => exact le_refl _
  | cons face faces ih =>
      have hpos := hfaces face (List.mem_cons_self ..)
      have hrest := ih fun f hf => hfaces f (List.mem_cons_of_mem _ hf)
      rw [regroupFaces]
      split
      · rename_i hle
        by_cases heq : type = face.2
        · subst heq
          rw [Function.update_self]
          exact Int.ediv_nonneg (hpos.le.trans hle) hpos.le
        · rw [Function.update_of_ne heq]
          exact hrest _
      · exact hrest gold

theorem regroupShopGold_nonneg (gold : Int) (type : String) :
    0 ≤ (regroupShopGold gold type).getD 0 :=
  regroupFaces_nonneg (by decide) gold type

theorem regroupProps_count {golds : String → Option Int} (hgolds : ∀ type, 0 ≤ (golds type).getD 0)
    (faces : List (Int × String)) {props : Value → Option Fields}
    (h : ∀ type, (rows.prop type).getD 0 = countIn props type) :
    (Sql.exec (regroupProps golds props faces).2 rows).plain = rows.plain ∧
      ∀ type, ((Sql.exec (regroupProps golds props faces).2 rows).prop type).getD 0 =
        countIn (regroupProps golds props faces).1 type := by
  induction faces generalizing props rows with
  | nil => exact ⟨rfl, h⟩
  | cons face faces ih =>
      obtain ⟨value, type⟩ := face
      have hface : ((regroupFace golds props type).2.exec rows).plain = rows.plain ∧
          ∀ other, (((regroupFace golds props type).2.exec rows).prop other).getD 0 =
            countIn (regroupFace golds props type).1 other := by
        unfold regroupFace
        dsimp only
        split
        · exact ⟨rfl, count_put rfl rfl h⟩
        · rename_i hzero
          exact ⟨rfl, count_put rfl (le_antisymm (hgolds type) (not_lt.mp hzero)) h⟩
      have hrest := ih hface.2
      exact ⟨hrest.1.trans hface.1, hrest.2⟩

theorem mirrors_regroup {sqls : Sql} {regrouped : User} {gold : Int} (h : Mirrors user rows)
    (hregroup : regroupShopGoldFace user gold = some (regrouped, sqls)) :
    Mirrors regrouped (Sql.exec sqls rows) := by
  obtain ⟨props, hprops, heq⟩ := Option.map_eq_some_iff.mp hregroup
  rw [Prod.mk.injEq] at heq
  obtain ⟨rfl, rfl⟩ := heq
  have hsame (type : String) : (rows.prop type).getD 0 = countIn props type := by
    rw [h.prop type, propCount_eq hprops]
  have hcount := regroupProps_count (regroupShopGold_nonneg gold) shopGoldFaces hsame
  have hplain (table : PlainTable) : (Sql.exec (regroupProps (regroupShopGold gold) props
      shopGoldFaces).2 rows).plain table = rows.plain table := congrFun hcount.1 table
  refine ⟨?_, ?_, fun type => ?_⟩
  · rw [hplain]
    exact h.info
  · rw [hplain]
    exact h.asset
  · rw [hcount.2, propCount_setKeyed]

/-! ## The commands -/

theorem follows_changeCoin (debug real : Bool) (column : String) (change : Int) :
    (changeCoin debug real user column change).Follows user := by
  have hasset : (changePlayerAsset debug user .playerAsset column change true).Follows user := by
    intro rows h
    unfold changePlayerAsset
    cases htable : user.plain .playerAsset with
    | none =>
        cases debug <;> exact h
    | some tdata =>
        dsimp only
        cases hfield : (tdata column).bind Value.number? with
        | none => exact h
        | some n =>
            have hset : Mirrors
                (user.setPlain .playerAsset (tdata.put column (.number (n + change))))
                ((Statement.update .playerAsset [(column, .number (n + change))]).exec rows) := by
              refine mirrors_update h fun _ => ?_
              have hagrees := h.asset
              rw [htable] at hagrees
              obtain ⟨v, hv, -⟩ := Option.bind_eq_some_iff.mp hfield
              obtain ⟨row, hrow, -⟩ := Option.bind_eq_some_iff.mp (hagrees column v hv)
              rw [hrow] at hagrees ⊢
              exact agrees_putAll_put hagrees _ _
            dsimp only
            split
            · cases hregroup : regroupShopGoldFace (user.setPlain .playerAsset
                  (tdata.put column (.number (n + change)))) (n + change) with
              | none => exact hset
              | some regrouped => exact mirrors_regroup hset hregroup
            · exact hset
  intro rows h
  unfold changeCoin logChange
  have hrows := hasset rows h
  split
  · exact hrows
  · exact hrows
  · dsimp only
    rw [execAll_append]
    cases real <;> exact hrows

theorem countIn_made (props : Value → Option Fields) (id : UserId) (type other : String) :
    countIn (Function.update props (.text type) (some ((props (.text type)).getD
      (Fields.putAll (fun _ => none)
        [("prop_count", .number 0), ("id", .text id), ("prop_type", .text type)])))) other =
      countIn props other := by
  by_cases heq : other = type
  · subst heq
    unfold countIn
    rw [Function.update_self]
    cases props (.text other) with
    | none => rfl
    | some prop => rfl
  · have hne : Value.text other ≠ .text type := fun hh => heq (Value.text.inj hh)
    unfold countIn
    rw [Function.update_of_ne hne]

theorem follows_changeProp (debug : Bool) (id : UserId) (type : String) (change : Int) :
    (changeProp debug user id type change).Follows user := by
  intro rows h
  unfold changeProp
  split
  · exact h
  · cases hprops : user.keyed .playerProp with
    | none => exact h
    | some props =>
        have hcounts (other : String) : (rows.prop other).getD 0 = countIn props other := by
          rw [h.prop other, propCount_eq hprops]
        have hmade : Mirrors (user.setKeyed .playerProp (Function.update props (.text type)
            (some ((props (.text type)).getD (Fields.putAll (fun _ => none)
              [("prop_count", .number 0), ("id", .text id), ("prop_type", .text type)])))))
            rows :=
          ⟨h.info, h.asset, fun other => by
            rw [propCount_setKeyed, countIn_made, hcounts]⟩
        dsimp only
        split
        · exact hmade
        · rename_i count hcount
          split
          · cases debug <;> exact hmade
          · have hadd : ((Statement.addProp type (count + change) change).count
                (rows.prop type)).getD 0 = count + change := ?_
            · exact ⟨h.info, h.asset, fun other => by
                rw [propCount_setKeyed]
                exact count_put rfl hadd hcounts other⟩
            · change (some ((rows.prop type).elim (count + change) (· + change))).getD 0 = _
              cases hrow : rows.prop type with
              | none => rfl
              | some n =>
                  have hn := (hcounts type).trans (countIn_made props id type type).symm
                  unfold countIn at hn
                  rw [hrow, Function.update_self, Option.bind_some, hcount] at hn
                  change n + change = count + change
                  exact congrArg (· + change) hn

theorem follows_changeAsset (debug real : Bool) (id : UserId) (type : String) (change : Int) :
    (changeAsset debug real user id type change).Follows user := by
  unfold changeAsset
  split
  · exact follows_changeCoin debug real _ _
  · split
    · exact follows_changeCoin debug real _ _
    · exact follows_changeProp debug id type change

theorem agrees_changeFields {fields row : Fields} (columns : List (String × Value))
    (h : Agrees (some fields) (some row)) :
    Agrees (some (changeFields fields columns).1)
      (some (row.putAll (changeFields fields columns).2)) := by
  induction columns generalizing fields row with
  | nil => exact h
  | cons c columns ih =>
      obtain ⟨name, v⟩ := c
      rw [changeFields]
      split
      · exact ih h
      · exact ih (agrees_putAll_put h name v)

theorem changeFields_isSome {fields : Fields} (columns : List (String × Value)) {name : String}
    (h : (fields name).isSome) : ((changeFields fields columns).1 name).isSome := by
  induction columns generalizing fields with
  | nil => exact h
  | cons c columns ih =>
      rw [changeFields]
      split
      · exact ih h
      · refine ih ?_
        unfold Fields.put
        rw [Function.update_apply]
        split
        · rfl
        · exact h

theorem changeFields_of_not_changes {fields : Fields} {columns : List (String × Value)}
    (h : changes fields columns = false) : changeFields fields columns = (fields, []) := by
  induction columns with
  | nil => rfl
  | cons c columns ih =>
      obtain ⟨name, v⟩ := c
      unfold changes at h ih
      rw [List.any_cons, Bool.or_eq_false_iff] at h
      have hold : fields name = some v := by simpa using h.1
      rw [changeFields, if_pos hold]
      exact ih h.2

def HasId (user : User) : Prop := (((user.plain .playerInfo).bind (· "id")).isSome : Prop)

theorem hasId_setPlain {table : PlainTable} {fields : Fields} (h : HasId user)
    (hid : table = .playerInfo → (fields "id").isSome) : HasId (user.setPlain table fields) := by
  unfold HasId
  change (((Function.update user.plain table (some fields)) .playerInfo).bind (· "id")).isSome
  by_cases heq : table = .playerInfo
  · subst heq
    rw [Function.update_self]
    exact hid rfl
  · rw [Function.update_of_ne (Ne.symm heq)]
    exact h

theorem exists_row (h : Mirrors user rows) {info : Fields}
    (hinfo : user.plain .playerInfo = some info) (hid : (info "id").isSome) :
    ∃ row, rows.plain .playerInfo = some row ∧ Agrees (some info) (some row) := by
  have hagrees := h.info
  rw [hinfo] at hagrees
  obtain ⟨v, hv⟩ := Option.isSome_iff_exists.mp hid
  obtain ⟨row, hrow, -⟩ := Option.bind_eq_some_iff.mp (hagrees "id" v hv)
  exact ⟨row, hrow, hrow ▸ hagrees⟩

theorem mirrors_changeFields (h : Mirrors user rows) {info : Fields}
    (hinfo : user.plain .playerInfo = some info) (hid : (info "id").isSome)
    (columns : List (String × Value)) :
    Mirrors (user.setPlain .playerInfo (changeFields info columns).1)
      ((Statement.update .playerInfo (changeFields info columns).2).exec rows) := by
  refine mirrors_update h fun _ => ?_
  obtain ⟨row, hrow, hagrees⟩ := exists_row h hinfo hid
  rw [hrow]
  exact agrees_changeFields columns hagrees

theorem follows_updateBasePlayerInfo (hid : HasId user) (data : List (String × Value))
    (seq : Int) : (updateBasePlayerInfo user data seq).Follows user := by
  intro rows h
  unfold updateBasePlayerInfo
  cases hinfo : user.plain .playerInfo with
  | none =>
      rw [HasId, hinfo] at hid
      cases hid
  | some info =>
      rw [HasId, hinfo] at hid
      dsimp only
      split
      · exact h
      · have hmirror := mirrors_changeFields h hinfo hid
          (data.filter (fun c => c.1 ≠ "sync_seq") ++ [("sync_seq", .number seq)])
        split
        · rename_i hnil
          rw [hnil] at hmirror
          refine ⟨?_, hmirror.asset, hmirror.prop⟩
          have hagrees := hmirror.info
          obtain ⟨row, hrow, -⟩ := exists_row h hinfo hid
          change Agrees _ ((rows.plain .playerInfo).map fun row => row.putAll []) at hagrees
          rw [hrow] at hagrees
          change Agrees _ (rows.plain .playerInfo)
          rw [hrow]
          exact hagrees
        · exact hmirror

theorem hasId_updateBasePlayerInfo (hid : HasId user) (data : List (String × Value))
    (seq : Int) : HasId (updateBasePlayerInfo user data seq).user := by
  unfold updateBasePlayerInfo
  cases hinfo : user.plain .playerInfo with
  | none => exact hid
  | some info =>
      dsimp only
      split
      · exact hid
      · refine hasId_setPlain hid fun _ => changeFields_isSome _ ?_
        rw [HasId, hinfo] at hid
        exact hid

/-- `modify_player_info` numbers its update only in the database, so it must not do so, or
change nothing. -/
def Unnumbered (user : User) (table : PlainTable) (values : List (String × Value))
    (notIncSeq : Bool) : Prop :=
  table = .playerInfo → notIncSeq = true ∨
    ∀ info ∈ user.plain .playerInfo, changes info values = false

theorem follows_modifyPlayerInfo (debug : Bool) (id : UserId) {table : PlainTable}
    {values : List (String × Value)} (fast : Bool) {notIncSeq : Bool} (seq : Int)
    (hid : HasId user) (hnum : Unnumbered user table values notIncSeq) :
    (modifyPlayerInfo debug user id table values fast notIncSeq seq).Follows user := by
  intro rows h
  unfold modifyPlayerInfo
  split
  · exact h
  · split
    · exact h
    · rename_i hasset
      cases htable : user.plain table with
      | none => exact h
      | some tdata =>
          dsimp only
          by_cases heq : table = .playerInfo
          · subst heq
            rw [HasId, htable] at hid
            have hsome : (tdata "id").isSome = true := hid
            rw [if_pos hsome]
            split
            · exact h
            · rename_i hset
              rcases hnum rfl with rfl | hold
              · exact mirrors_changeFields h htable hid values
              · rw [changeFields_of_not_changes (hold tdata htable)] at hset
                exact absurd rfl hset
          · -- the rows of the other tables are not compared
            have hother : ¬(table = .playerInfo ∨ table = .playerAsset) := fun hh =>
              hh.elim heq hasset
            have hplain (fields : Fields) (x : Statement) (hx : x.table? = some table)
                (hprop : x.prop? = none) :
                Mirrors (user.setPlain table fields) (x.exec rows) := by
              have hrow (other : PlainTable) (hne : table ≠ other) :
                  (x.exec rows).plain other = rows.plain other :=
                if_neg (by rw [hx]; exact fun hh => hne (Option.some.inj hh))
              have hcache (other : PlainTable) (hne : table ≠ other) :
                  (user.setPlain table fields).plain other = user.plain other :=
                Function.update_of_ne (Ne.symm hne) _ _
              refine ⟨?_, ?_, fun type => ?_⟩
              · rw [hrow _ heq, hcache _ heq]
                exact h.info
              · rw [hrow _ hasset, hcache _ hasset]
                exact h.asset
              · change (if x.prop? = some type then _ else rows.prop type).getD 0 = _
                rw [hprop]
                exact h.prop type
            split
            · split
              · exact h
              · exact hplain _ _ rfl rfl
            · exact hplain _ _ rfl rfl

theorem hasId_modifyPlayerInfo (debug : Bool) (id : UserId) (table : PlainTable)
    (values : List (String × Value)) (fast notIncSeq : Bool) (seq : Int) (hid : HasId user) :
    HasId (modifyPlayerInfo debug user id table values fast notIncSeq seq).user := by
  unfold modifyPlayerInfo
  split
  · exact hid
  · split
    · exact hid
    · cases htable : user.plain table with
      | none => exact hid
      | some tdata =>
          dsimp only
          split
          · rename_i hsome
            split
            · exact hid
            · exact hasId_setPlain hid fun _ => changeFields_isSome _ hsome
          · rename_i hnone
            refine hasId_setPlain hid fun heq => ?_
            subst heq
            rw [HasId, htable] at hid
            exact absurd hid hnone

theorem hasId_changeCoin (debug real : Bool) (column : String) (change : Int)
    (hid : HasId user) : HasId (changeCoin debug real user column change).user := by
  have hasset : HasId (changePlayerAsset debug user .playerAsset column change true).user := by
    unfold changePlayerAsset
    cases user.plain .playerAsset with
    | none => exact hid
    | some tdata =>
        dsimp only
        have hset (fields : Fields) : HasId (user.setPlain .playerAsset fields) :=
          hasId_setPlain hid nofun
        cases (tdata column).bind Value.number? with
        | none => exact hid
        | some n =>
            dsimp only
            split
            · split
              · exact hset _
              · rename_i regrouped sqls hregroup
                obtain ⟨props, -, heq⟩ := Option.map_eq_some_iff.mp hregroup
                rw [Prod.mk.injEq] at heq
                rw [← heq.1]
                exact hset (tdata.put column (.number (n + change)))
            · exact hset _
  unfold changeCoin logChange
  split <;> exact hasset

theorem hasId_changeAsset (debug real : Bool) (id : UserId) (type : String) (change : Int)
    (hid : HasId user) : HasId (changeAsset debug real user id type change).user := by
  unfold changeAsset
  split
  · exact hasId_changeCoin debug real _ _ hid
  · split
    · exact hasId_changeCoin debug real _ _ hid
    · unfold changeProp
      split
      · exact hid
      · split
        · exact hid
        · dsimp only
          split
          · exact hid
          · split <;> exact hid

theorem agrees_putAll {fields row : Fields} (columns : List (String × Value))
    (h : Agrees (some fields) (some row)) :
    Agrees (some (fields.putAll columns)) (some (row.putAll columns)) := by
  induction columns generalizing fields row with
  | nil => exact h
  | cons c columns ih => exact ih (agrees_putAll_put h c.1 c.2)

theorem agrees_empty (row : Fields) : Agrees (some fun _ => none) (some row) :=
  fun _ _ h => by cases h

theorem agrees_newAssets (id : UserId) :
    Agrees (some (Fields.putAll (fun _ => none) (newAssets id)))
      (some ((defaults .playerAsset).putAll [("id", .text id)])) := by
  intro name v h
  simp only [newAssets, defaults, Fields.putAll, List.foldl_cons, List.foldl_nil, Fields.put,
    Option.bind_some, Function.update_apply] at h ⊢
  split_ifs at h ⊢ <;> simp_all

theorem mirrors_createPlayerInfo (id : UserId) (robot : Bool)
    (data register registered : List (String × Value)) (seq : Int)
    (hinfo : rows.plain .playerInfo = none) (hasset : rows.plain .playerAsset = none)
    (hprop : ∀ type, (rows.prop type).getD 0 = 0) :
    Mirrors (createPlayerInfo id robot data register registered seq).user
      (execAll (createPlayerInfo id robot data register registered seq).sqls rows) := by
  refine ⟨?_, ?_, hprop⟩
  · change Agrees (some (Fields.putAll (fun _ => none) (createColumns id robot data seq)))
      (some ((rows.plain .playerInfo).getD
        ((defaults .playerInfo).putAll (createColumns id robot data seq))))
    rw [hinfo]
    exact agrees_putAll _ (agrees_empty _)
  · change Agrees (some (Fields.putAll (fun _ => none) (newAssets id)))
      (some ((rows.plain .playerAsset).getD
        ((defaults .playerAsset).putAll [("id", .text id)])))
    rw [hasset]
    exact agrees_newAssets id

theorem hasId_createPlayerInfo (id : UserId) (robot : Bool)
    (data register registered : List (String × Value)) (seq : Int) :
    HasId (createPlayerInfo id robot data register registered seq).user := by
  unfold HasId
  change ((Fields.putAll (fun _ => none) (createColumns id robot data seq)) "id").isSome
  unfold createColumns
  rw [putAll_append]
  rfl

/-! ## Runs -/

/-- A player in the cache and in the database, and the texts that wait, of both queues in
the order in which they were pushed. -/
structure Player where
  user : Option User := none
  rows : Rows := {}
  pending : List (QueueName × Sql) := []

inductive Command where
  | createPlayerInfo (robot : Bool) (data register registered : List (String × Value))
    (seq : Int)
  | updateBasePlayerInfo (data : List (String × Value)) (seq : Int)
  | modifyPlayerInfo (table : PlainTable) (values : List (String × Value))
    (fast notIncSeq : Bool) (seq : Int)
  | changeAsset (type : String) (change : Int)
  | exec (name : QueueName)

namespace Player

def queue (p : Player) (name : QueueName) : List Sql :=
  (p.pending.filter fun x => x.1 = name).map Prod.snd

def older (p : Player) (name : QueueName) : List (QueueName × Sql) :=
  p.pending.takeWhile fun x => x.1 ≠ name

def fromFirst (p : Player) (name : QueueName) : List (QueueName × Sql) :=
  p.pending.dropWhile fun x => x.1 ≠ name

def after {ρ : Type} (p : Player) (effect : Effect ρ) : Player :=
  { p with user := some effect.user, pending := p.pending ++ effect.sqls }

def exec (p : Player) (name : QueueName) : Player :=
  match p.fromFirst name with
  | [] => p
  | (_, sql) :: rest => { p with rows := sql.exec p.rows, pending := p.older name ++ rest }

def isRealPlayer (id : UserId) : Bool := id.toList.take 5 ≠ "robot".toList

def step (debug : Bool) (id : UserId) (p : Player) : Command → Player
  | .createPlayerInfo robot data register registered seq =>
      p.after (PlayerInfo.createPlayerInfo id robot data register registered seq)
  | .updateBasePlayerInfo data seq => p.user.elim p fun user =>
      p.after (PlayerInfo.updateBasePlayerInfo user data seq)
  | .modifyPlayerInfo table values fast notIncSeq seq => p.user.elim p fun user =>
      p.after (PlayerInfo.modifyPlayerInfo debug user id table values fast notIncSeq seq)
  | .changeAsset type change => p.user.elim p fun user =>
      p.after (PlayerInfo.changeAsset debug (isRealPlayer id) user id type change)
  | .exec name => p.exec name

/-- The first text of the queue writes no column that an older text of the other queue
writes. -/
def InOrder (p : Player) (name : QueueName) : Prop :=
  ∀ x ∈ (p.fromFirst name).head?, ∀ y ∈ p.older name, y.2.overlaps x.2 = false

def KeepsId (columns : List (String × Value)) : Prop := ∀ c ∈ columns, c.1 ≠ "id"

def Careful (p : Player) : Command → Prop
  | .createPlayerInfo .. => p.user = none
  | .updateBasePlayerInfo data _ => KeepsId data
  | .modifyPlayerInfo table values _ notIncSeq _ =>
      (table = .playerInfo → KeepsId values) ∧
        ∀ user ∈ p.user, Unnumbered user table values notIncSeq
  | .changeAsset .. => True
  | .exec name => p.InOrder name

instance (columns : List (String × Value)) : Decidable (KeepsId columns) :=
  inferInstanceAs (Decidable (∀ c ∈ columns, c.1 ≠ "id"))

instance (user : User) (table : PlainTable) (values : List (String × Value))
    (notIncSeq : Bool) : Decidable (Unnumbered user table values notIncSeq) :=
  inferInstanceAs (Decidable (table = .playerInfo → notIncSeq = true ∨
    ∀ info ∈ user.plain .playerInfo, changes info values = false))

instance (p : Player) (name : QueueName) : Decidable (p.InOrder name) :=
  inferInstanceAs (Decidable (∀ x ∈ (p.fromFirst name).head?, ∀ y ∈ p.older name,
    y.2.overlaps x.2 = false))

instance (p : Player) : (command : Command) → Decidable (p.Careful command)
  | .createPlayerInfo .. => decidable_of_iff (p.user.isNone = true) Option.isNone_iff_eq_none
  | .updateBasePlayerInfo data _ => inferInstanceAs (Decidable (KeepsId data))
  | .modifyPlayerInfo table values _ notIncSeq _ =>
      inferInstanceAs (Decidable ((table = .playerInfo → KeepsId values) ∧
        ∀ user ∈ p.user, Unnumbered user table values notIncSeq))
  | .changeAsset .. => inferInstanceAs (Decidable True)
  | .exec name => inferInstanceAs (Decidable (p.InOrder name))

def Synced (user : Option User) (rows : Rows) : Prop :=
  match user with
  | none => rows.plain .playerInfo = none ∧ rows.plain .playerAsset = none ∧
      ∀ type, (rows.prop type).getD 0 = 0
  | some user => Mirrors user rows ∧ HasId user

def Fresh (p : Player) : Prop := p.pending = [] ∧ Synced p.user p.rows

/-- The rows would follow the cache if all texts were executed in the order in which they
were pushed. -/
structure Sound (p : Player) : Prop where
  synced : Synced p.user (execAll p.pending p.rows)
  nobody : p.user = none → p.pending = []

theorem fresh_sound {p : Player} (h : p.Fresh) : p.Sound := by
  refine ⟨?_, fun _ => h.1⟩
  rw [h.1]
  exact h.2

theorem sound_after {ρ : Type} {p : Player} {user : User} {effect : Effect ρ}
    (h : p.Sound) (huser : p.user = some user) (hfollows : HasId user → effect.Follows user)
    (hid : HasId user → HasId effect.user) : (p.after effect).Sound := by
  obtain ⟨hmirrors, huid⟩ : Mirrors user (execAll p.pending p.rows) ∧ HasId user := by
    have hsynced := h.synced
    rwa [huser] at hsynced
  refine ⟨?_, fun hnone => by cases hnone⟩
  change Mirrors effect.user (execAll (p.pending ++ effect.sqls) p.rows) ∧ HasId effect.user
  rw [execAll_append]
  exact ⟨hfollows huid _ hmirrors, hid huid⟩

theorem sound_create {p : Player} (h : p.Sound) (huser : p.user = none) (id : UserId)
    (robot : Bool) (data register registered : List (String × Value)) (seq : Int) :
    (p.after (PlayerInfo.createPlayerInfo id robot data register registered seq)).Sound := by
  refine ⟨?_, fun hnone => by cases hnone⟩
  have hsynced := h.synced
  rw [h.nobody huser, huser] at hsynced
  obtain ⟨hinfo, hasset, hprop⟩ := hsynced
  change Mirrors _ (execAll (p.pending ++ _) p.rows) ∧ HasId _
  rw [h.nobody huser]
  exact ⟨mirrors_createPlayerInfo id robot data register registered seq hinfo hasset hprop,
    hasId_createPlayerInfo id robot data register registered seq⟩

theorem sound_exec {p : Player} (h : p.Sound) {name : QueueName} (horder : p.InOrder name) :
    (p.exec name).Sound := by
  unfold exec
  cases hfirst : p.fromFirst name with
  | nil => exact h
  | cons x rest =>
      have hsplit : p.pending = p.older name ++ x :: rest := by
        rw [← hfirst]
        exact (List.takeWhile_append_dropWhile).symm
      have hcommutes : ∀ y ∈ (p.older name).map Prod.snd, Commutes Sql.exec y x.2 := by
        intro y hy
        obtain ⟨z, hz, rfl⟩ := List.mem_map.mp hy
        exact commutes_sql (horder x (by rw [hfirst]; rfl) z hz)
      have hsame : execAll (p.older name ++ rest) (x.2.exec p.rows) =
          execAll p.pending p.rows := by
        rw [hsplit]
        unfold execAll
        rw [List.map_append, List.map_append, List.map_cons]
        exact applyAll_first hcommutes p.rows
      refine ⟨?_, fun hnone => ?_⟩
      · change Synced p.user (execAll (p.older name ++ rest) (x.2.exec p.rows))
        rw [hsame]
        exact h.synced
      · rw [h.nobody hnone] at hsplit
        exact absurd hsplit.symm (by simp)

theorem Sound.step {p : Player} (h : p.Sound) (debug : Bool) (id : UserId) {command : Command}
    (hcareful : p.Careful command) : (p.step debug id command).Sound := by
  cases command with
  | createPlayerInfo robot data register registered seq =>
      exact sound_create h hcareful id robot data register registered seq
  | updateBasePlayerInfo data seq =>
      unfold Player.step
      cases huser : p.user with
      | none => exact h
      | some user =>
          exact sound_after h huser (fun hid => follows_updateBasePlayerInfo hid data seq)
            fun hid => hasId_updateBasePlayerInfo hid data seq
  | modifyPlayerInfo table values fast notIncSeq seq =>
      unfold Player.step
      cases huser : p.user with
      | none => exact h
      | some user =>
          exact sound_after h huser
            (fun hid => follows_modifyPlayerInfo debug id fast seq hid
              (hcareful.2 user huser))
            fun hid => hasId_modifyPlayerInfo debug id table values fast notIncSeq seq hid
  | changeAsset type change =>
      unfold Player.step
      cases huser : p.user with
      | none => exact h
      | some user =>
          exact sound_after h huser
            (fun _ => follows_changeAsset debug (isRealPlayer id) id type change)
            fun hid => hasId_changeAsset debug (isRealPlayer id) id type change hid
  | exec name => exact sound_exec h hcareful

theorem pending_of_queues {p : Player} (h : ∀ name, p.queue name = []) : p.pending = [] := by
  rw [List.eq_nil_iff_forall_not_mem]
  intro x hx
  have hmem : x.2 ∈ p.queue x.1 :=
    List.mem_map_of_mem (List.mem_filter.mpr ⟨hx, by simp⟩)
  rw [h] at hmem
  cases hmem

/-- Once both queues are empty, the rows of the player have what is cached. -/
theorem rows_mirror_cache {debug : Bool} {id : UserId} {p q : Player} (hp : p.Fresh)
    (h : Reach (step debug id) Careful p q) (hempty : ∀ name, q.queue name = []) :
    ∀ user ∈ q.user, Mirrors user q.rows := by
  intro user huser
  have hsynced := (Reach.invariant (fresh_sound hp)
    (fun _ _ hs hc => hs.step debug id hc) h).synced
  rw [pending_of_queues hempty, Option.mem_def.mp huser] at hsynced
  exact hsynced.1

def mirroredRun : List Command :=
  [.createPlayerInfo false [("name", .text "a")] [] [] 1, .exec .fast,
    .updateBasePlayerInfo [("name", .text "b")] 2, .changeAsset "shop_gold_sum" 1230,
    .changeAsset "prop_1" 3, .exec .slow, .exec .fast, .exec .slow, .exec .fast, .exec .slow,
    .exec .fast]

theorem rows_mirror_cache_once :
    let q := run (step false "10") {} mirroredRun
    (∀ name, q.queue name = []) ∧ ∀ user ∈ q.user, Mirrors user q.rows :=
  have hempty : ∀ name, (run (step false "10") {} mirroredRun).queue name = [] := by
    decide +kernel
  ⟨hempty, rows_mirror_cache (p := {}) ⟨rfl, rfl, rfl, fun _ => rfl⟩
    (reach_run (by decide +kernel)) hempty⟩

/-- `modify_player_info` writes a number to the database only. -/
def numberedRun : List Command :=
  [.createPlayerInfo false [("name", .text "a")] [] [] 1,
    .modifyPlayerInfo .playerInfo [("name", .text "b")] false false 2, .exec .fast,
    .exec .slow]

def overtakenRun : List Command :=
  [.createPlayerInfo false [("name", .text "a")] [] [] 1,
    .updateBasePlayerInfo [("name", .text "b")] 2, .exec .slow, .exec .fast]

theorem not_mirrors {user : User} {rows : Rows} (name : String) (v : Value)
    (hcache : (user.plain .playerInfo).bind (· name) = some v)
    (hrow : (rows.plain .playerInfo).bind (· name) ≠ some v) : ¬Mirrors user rows :=
  fun h => hrow (h.info name v hcache)

theorem rows_differ_from_cache :
    let q := run (step false "10") {} numberedRun
    let r := run (step false "10") {} overtakenRun
    ((∀ name, q.queue name = []) ∧ ∃ user ∈ q.user, ¬Mirrors user q.rows) ∧
      (∀ name, r.queue name = []) ∧ ∃ user ∈ r.user, ¬Mirrors user r.rows := by
  refine ⟨⟨by decide +kernel, _, rfl, ?_⟩, by decide +kernel, _, rfl, ?_⟩
  · exact not_mirrors "sync_seq" (.number 1) (by decide +kernel)
      (by decide +kernel)
  · exact not_mirrors "name" (.text "b") (by decide +kernel)
      (by decide +kernel)

end Player

end JyQipai.PlayerInfo
