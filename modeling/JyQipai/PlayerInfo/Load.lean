import JyQipai.PlayerInfo.Record
import JyQipai.Lib.Coroutine

/-!
# Loading a player

`load_player_info` reads seven tables and waits for each of them.  The record is stored
after the last one; since the cache is looked at after every wait, and nothing waits
between the last look and the store, a record that is stored stays.
-/

namespace JyQipai.PlayerInfo

open Lib DataService

/-- `player_object_data` and `object_attribute_data` -/
structure ObjectTables where
  playerObject : UserId → List (String × String) := fun _ => []
  objectAttribute : String → Option Fields := fun _ => none

def ObjectTables.queryPlayerObjectData (o : ObjectTables) (id : UserId) : List ObjectData :=
  (o.playerObject id).map fun (objectId, objectType) =>
    { objectId, objectType, attributes := o.objectAttribute objectId }

/-- Records are shared by reference, so the cache holds their places in `heap`.  The last
three fields are the history: what the calls have returned, the records as they were when
they were stored, and the changes that were made. -/
structure State where
  debug : Bool := false
  objects : ObjectTables := {}
  heap : List User := []
  playerInfo : UserId → Option Nat := fun _ => none
  sqls : List (QueueName × Sql) := []
  returned : List (UserId × Nat) := []
  original : List User := []
  changes : List (UserId × PlainTable × String × Int) := []

/-- A query: the fields, the table, and the column that has the user id; no fields stand
for all. -/
structure Ask where
  fields : List String
  table : Table
  key : String
  id : UserId

inductive Answer where
  | rows (rows : List (List (String × Value)))
  | errno
  | error

abbrev Op (α : Type) := Handler State Ask Answer α

def Table.query (id : UserId) : Table → Ask
  | .plain .playerRegister =>
      ⟨["register_time", "market_channel"], .plain .playerRegister, "id", id⟩
  | .plain .playerAlipayAccount => ⟨[], .plain .playerAlipayAccount, "player_id", id⟩
  | .plain table => ⟨[], .plain table, "id", id⟩
  | .keyed .playerProp => ⟨[], .keyed .playerProp, "id", id⟩
  | .keyed .playerOpenId => ⟨[], .keyed .playerOpenId, "player_id", id⟩

def loadPlayerTable (user : User) (id : UserId) (table : Table) : Op (Option Nat × User) :=
  fun s => .call s (table.query id) fun
    | .rows rows, s =>
        match genCacheData s.debug user rows table with
        | none => .raised s
        | some user => .done s (some rows.length, user)
    | .errno, s => if s.debug then .raised s else .done s (none, user)
    | .error, s => .raised s

def State.store (s : State) (id : UserId) (user : User) : State :=
  { s with
    heap := s.heap ++ [user]
    playerInfo := Function.update s.playerInfo id (some s.heap.length)
    original := s.original ++ [user] }

/-- The rest of `load_player_info` after a look at the cache: the tables one after
another, each with a look at the cache. -/
def loadTables (id : UserId) : User → List Table → Op Nat
  | user, [] => fun s =>
      .done (s.store id { user with objectData := s.objects.queryPlayerObjectData id })
        s.heap.length
  | user, table :: tables => fun s =>
      (loadPlayerTable user id table s).bind fun (_, user) s =>
        match s.playerInfo id with
        | some ref => .done s ref
        | none => loadTables id user tables s

def furtherTables : List Table :=
  [.plain .playerAsset, .plain .playerDeviceInfo, .keyed .playerProp, .plain .playerRegister,
    .keyed .playerOpenId, .plain .playerAlipayAccount]

def loadPlayerInfo (id : UserId) : Op (Option Nat) := fun s =>
  match s.playerInfo id with
  | some ref => .done s (some ref)
  | none =>
      (loadPlayerTable {} id (.plain .playerInfo) s).bind fun (count, user) s =>
        if count = none ∨ count = some 0 then .done s none
        else
          match s.playerInfo id with
          | some ref => .done s (some ref)
          | none =>
              (loadTables id user furtherTables s).bind fun ref s => .done s (some ref)

def load (id : UserId) : Op (Option Nat) := fun s =>
  (loadPlayerInfo id s).bind fun result s =>
    .done { s with returned := s.returned ++ (result.map (id, ·)).toList } result

/-- `change_player_asset` behind the load, or any other change by a caller that has the
record. -/
def changeHeld (id : UserId) (ref : Nat) (table : PlainTable) (field : String) (inc : Int)
    (fast : Bool) : Op (Option Int) := fun s =>
  match s.heap[ref]? with
  | none => .raised s
  | some user =>
      let effect := changePlayerAsset s.debug user table field inc fast
      let made := if (user.number? table field).isSome then [(id, table, field, inc)] else []
      let s := { s with
        heap := s.heap.set ref effect.user
        sqls := s.sqls ++ effect.sqls
        changes := s.changes ++ made }
      match effect.result with
      | none => .raised s
      | some result => .done s result

inductive Event where
  | load (id : UserId)
  | changePlayerAsset (id : UserId) (table : PlainTable) (field : String) (inc : Int)
    (fast : Bool)
  | changeHeld (id : UserId) (ref : Nat) (table : PlainTable) (field : String) (inc : Int)
    (fast : Bool)
  | objects (tables : ObjectTables)

def handle : Event → Op Unit
  | .load id, s => (load id s).bind fun _ s => .done s ()
  | .changePlayerAsset id table field inc fast, s =>
      (load id s).bind fun result s =>
        match result with
        | none => .done s ()
        | some ref => (changeHeld id ref table field inc fast s).bind fun _ s => .done s ()
  | .changeHeld id ref table field inc fast, s =>
      (changeHeld id ref table field inc fast s).bind fun _ s => .done s ()
  | .objects tables, s => .done { s with objects := tables } ()

def Event.Holds (s : State) : Event → Prop
  | .changeHeld id ref .. => (id, ref) ∈ s.returned
  | _ => True

instance (s : State) : (e : Event) → Decidable (e.Holds s)
  | .changeHeld id ref .. => inferInstanceAs (Decidable ((id, ref) ∈ s.returned))
  | .load _ | .changePlayerAsset .. | .objects _ => inferInstanceAs (Decidable True)

/-! ## Records are not replaced -/

namespace State

def Later (s t : State) : Prop := ∀ id ref, s.playerInfo id = some ref →
  t.playerInfo id = some ref

theorem Later.refl (s : State) : Later s s := fun _ _ h => h

theorem Later.trans {s t u : State} (h : Later s t) (h' : Later t u) : Later s u :=
  fun id ref hs => h' id ref (h id ref hs)

theorem later_store {s : State} {id : UserId} (user : User) (h : s.playerInfo id = none) :
    Later s (s.store id user) := by
  intro other ref hother
  have hne : other ≠ id := by
    rintro rfl
    rw [h] at hother
    cases hother
  rw [store]
  dsimp only
  rw [Function.update_of_ne hne, hother]

end State

open State

variable {s : State} {id : UserId}

theorem within_bind {α β : Type} {p : Prog State Ask Answer α} {f : α → Op β}
    (hp : p.Within Later s) (hf : ∀ a t, (f a t).Within Later t) :
    (p.bind f).Within Later s :=
  Prog.Within.bind (R := Later) (fun h h' => Later.trans h h') hp hf

theorem within_loadPlayerTable (user : User) (table : Table) (s : State) :
    (loadPlayerTable user id table s).Within Later s := by
  refine ⟨Later.refl s, fun a t => ?_⟩
  cases a with
  | rows rows =>
      dsimp only
      split <;> exact Later.refl t
  | errno =>
      dsimp only
      split <;> exact Later.refl t
  | error => exact Later.refl t

theorem within_loadTables (tables : List Table) (user : User) {s : State}
    (h : s.playerInfo id = none) : (loadTables id user tables s).Within Later s := by
  induction tables generalizing user s with
  | nil => exact later_store _ h
  | cons table tables ih =>
      refine within_bind (within_loadPlayerTable user table s) fun r t => ?_
      dsimp only
      split
      · exact Later.refl t
      · rename_i hnone
        exact ih _ hnone

theorem within_load (s : State) : (load id s).Within Later s := by
  refine within_bind ?_ fun result t => Later.refl t
  unfold loadPlayerInfo
  split
  · exact Later.refl s
  · refine within_bind (within_loadPlayerTable _ _ s) fun r t => ?_
    dsimp only
    split
    · exact Later.refl t
    · split
      · exact Later.refl t
      · rename_i hnone
        exact within_bind (within_loadTables _ _ hnone) fun _ u => Later.refl u

theorem within_changeHeld (ref : Nat) (table : PlainTable) (field : String) (inc : Int)
    (fast : Bool) (s : State) :
    (changeHeld id ref table field inc fast s).Within Later s := by
  unfold changeHeld
  split
  · exact Later.refl s
  · dsimp only
    split <;> exact fun _ _ h => h

theorem within_handle (e : Event) (s : State) : (handle e s).Within Later s := by
  cases e with
  | load id => exact within_bind (within_load s) fun _ t => Later.refl t
  | changePlayerAsset id table field inc fast =>
      refine within_bind (within_load s) fun result t => ?_
      cases result with
      | none => exact Later.refl t
      | some ref =>
          exact within_bind (within_changeHeld ref table field inc fast t)
            fun _ u => Later.refl u
  | changeHeld id ref table field inc fast =>
      exact within_bind (within_changeHeld ref table field inc fast s)
        fun _ t => Later.refl t
  | objects tables => exact fun _ _ h => h

/-! ## No change is lost -/

namespace State

def changed (s : State) (id : UserId) (table : PlainTable) (field : String) : Int :=
  ((s.changes.filter fun c => c.1 = id ∧ c.2.1 = table ∧ c.2.2.1 = field).map
    fun c => c.2.2.2).sum

/-- The stored record is the one that was stored plus all changes that were made. -/
def NoneLost (s : State) : Prop := ∀ id ref, s.playerInfo id = some ref →
  ∃ was now, s.original[ref]? = some was ∧ s.heap[ref]? = some now ∧
    ∀ table field, now.number? table field =
      (was.number? table field).map (· + s.changed id table field)

structure Sound (s : State) : Prop where
  returned : ∀ p ∈ s.returned, s.playerInfo p.1 = some p.2
  noneLost : s.NoneLost
  length : s.original.length = s.heap.length
  apart : ∀ id id' ref, s.playerInfo id = some ref → s.playerInfo id' = some ref → id = id'
  changes : ∀ c ∈ s.changes, s.playerInfo c.1 ≠ none

theorem Sound.lt (h : s.Sound) {ref : Nat} (hid : s.playerInfo id = some ref) :
    ref < s.heap.length := by
  obtain ⟨_, _, -, hnow, -⟩ := h.noneLost id ref hid
  exact (List.getElem?_eq_some_iff.mp hnow).1

theorem changed_eq_zero (h : s.Sound) (hid : s.playerInfo id = none) (table : PlainTable)
    (field : String) : s.changed id table field = 0 := by
  have hnil : (s.changes.filter fun c => c.1 = id ∧ c.2.1 = table ∧ c.2.2.1 = field) = [] := by
    rw [List.filter_eq_nil_iff]
    intro c hc hmatch
    obtain ⟨rfl, -⟩ := of_decide_eq_true hmatch
    exact h.changes c hc hid
  rw [changed, hnil]
  rfl

theorem sound_store (h : s.Sound) (hid : s.playerInfo id = none) (user : User) :
    (s.store id user).Sound := by
  have hstored : ∀ other ref, (s.store id user).playerInfo other = some ref →
      (other = id ∧ ref = s.heap.length) ∨ (other ≠ id ∧ s.playerInfo other = some ref) := by
    intro other ref hother
    by_cases heq : other = id
    · subst heq
      left
      rw [store] at hother
      simpa using hother.symm
    · right
      rw [store] at hother
      simpa [heq] using hother
  refine ⟨fun p hp => later_store user hid _ _ (h.returned p hp), fun other ref hother => ?_,
    by simp [store, h.length], fun a b ref ha hb => ?_, fun c hc hnone => ?_⟩
  · change ∃ was now, (s.original ++ [user])[ref]? = some was ∧
      (s.heap ++ [user])[ref]? = some now ∧ _
    rcases hstored other ref hother with ⟨rfl, rfl⟩ | ⟨-, hold⟩
    · refine ⟨user, user, by simp [← h.length], by simp, fun table field => ?_⟩
      have hzero : (s.store other user).changed other table field = 0 :=
        changed_eq_zero h hid table field
      simp [hzero]
    · obtain ⟨was, now, hwas, hnow, hnum⟩ := h.noneLost other ref hold
      have hlt := (List.getElem?_eq_some_iff.mp hnow).1
      refine ⟨was, now, ?_, ?_, hnum⟩
      · rw [List.getElem?_append_left (h.length ▸ hlt), hwas]
      · rw [List.getElem?_append_left hlt, hnow]
  · rcases hstored a ref ha with ⟨rfl, rfl⟩ | ⟨-, ha⟩
    · rcases hstored b _ hb with ⟨rfl, -⟩ | ⟨-, hb⟩
      · rfl
      · exact absurd (h.lt hb) (lt_irrefl _)
    · rcases hstored b ref hb with ⟨-, rfl⟩ | ⟨-, hb⟩
      · exact absurd (h.lt ha) (lt_irrefl _)
      · exact h.apart a b ref ha hb
  · obtain ⟨ref, href⟩ := Option.ne_none_iff_exists'.mp (h.changes c hc)
    rw [later_store user hid _ _ href] at hnone
    cases hnone

theorem sound_change (h : s.Sound) {ref : Nat} (hid : s.playerInfo id = some ref) {user : User}
    (huser : s.heap[ref]? = some user) (table : PlainTable) (field : String) (inc : Int)
    (fast : Bool) (sqls : List (QueueName × Sql)) :
    { s with
      heap := s.heap.set ref (changePlayerAsset s.debug user table field inc fast).user
      sqls := sqls
      changes := s.changes ++ if (user.number? table field).isSome then
        [(id, table, field, inc)] else [] }.Sound := by
  have hlt := (List.getElem?_eq_some_iff.mp huser).1
  refine ⟨h.returned, fun other ref' hother => ?_, ?_, h.apart, fun c hc => ?_⟩
  · obtain ⟨was, now, hwas, hnow, hnum⟩ := h.noneLost other ref' hother
    change ∃ was now, s.original[ref']? = some was ∧
      (s.heap.set ref (changePlayerAsset s.debug user table field inc fast).user)[ref']? =
        some now ∧ _
    by_cases hother' : other = id
    · subst hother'
      obtain rfl : ref' = ref := Option.some.inj (hother.symm.trans hid)
      obtain rfl : now = user := Option.some.inj (hnow.symm.trans huser)
      refine ⟨was, _, hwas, by rw [List.getElem?_set_self hlt], fun t f => ?_⟩
      unfold changed at hnum ⊢
      dsimp only
      rw [List.filter_append, List.map_append, List.sum_append]
      cases hval : now.number? table field with
      | none =>
          rw [changePlayerAsset_none hval, hnum]
          simp
      | some n =>
          rw [changePlayerAsset_number? hval]
          by_cases heq : t = table ∧ f = field
          · obtain ⟨rfl, rfl⟩ := heq
            rw [hnum] at hval
            obtain ⟨m, hm, rfl⟩ := Option.map_eq_some_iff.mp hval
            rw [hm]
            simp [add_assoc]
          · have hne : ¬(table = t ∧ field = f) := fun hh => heq ⟨hh.1.symm, hh.2.symm⟩
            rw [if_neg heq, hnum]
            simp [hne]
    · have hne : ref ≠ ref' := by
        rintro rfl
        exact hother' (h.apart _ _ _ hother hid)
      refine ⟨was, now, hwas, by rw [List.getElem?_set_ne hne, hnow], fun t f => ?_⟩
      rw [hnum]
      unfold changed
      dsimp only
      rw [List.filter_append, List.map_append, List.sum_append]
      split <;> simp [Ne.symm hother']
  · simp [h.length]
  · rcases List.mem_append.mp hc with hc | hc
    · exact h.changes c hc
    · split at hc
      · obtain rfl := List.mem_singleton.mp hc
        simp [hid]
      · cases hc

end State

variable {valid : Ask → Answer → Prop} {P : State → Prop}

abbrev SoundTill {α : Type} (Q : α → State → Prop) (p : Prog State Ask Answer α) : Prop :=
  p.Sat (fun _ _ => True) (fun _ => Sound) (fun _ => True) Sound Sound
    fun a s => Sound s ∧ Q a s

theorem sound_loadPlayerTable (user : User) (table : Table) (h : s.Sound) :
    SoundTill (fun _ _ => True) (loadPlayerTable user id table s) := by
  refine ⟨h, fun a t _ ht _ => ?_⟩
  cases a with
  | rows rows =>
      dsimp only
      split
      · exact ht
      · exact ⟨ht, trivial⟩
  | errno =>
      dsimp only
      split
      · exact ht
      · exact ⟨ht, trivial⟩
  | error => exact ht

theorem sound_loadTables (tables : List Table) (user : User) (h : s.Sound)
    (hid : s.playerInfo id = none) :
    SoundTill (fun ref s => s.playerInfo id = some ref) (loadTables id user tables s) := by
  induction tables generalizing user s with
  | nil =>
      refine ⟨sound_store h hid _, ?_⟩
      simp [State.store]
  | cons table tables ih =>
      refine (sound_loadPlayerTable user table h).bind fun r t ht => ?_
      dsimp only
      split
      · rename_i hsome
        exact ⟨ht.1, hsome⟩
      · rename_i hnone
        exact ih _ ht.1 hnone

theorem sound_load (id : UserId) (h : s.Sound) :
    SoundTill (fun result s => ∀ ref, result = some ref → (id, ref) ∈ s.returned ∧
      s.playerInfo id = some ref) (load id s) := by
  have hload : SoundTill (fun result s => ∀ ref, result = some ref →
      s.playerInfo id = some ref) (loadPlayerInfo id s) := by
    unfold loadPlayerInfo
    split
    · rename_i hsome
      refine ⟨h, fun ref href => ?_⟩
      rw [hsome, href]
    · refine (sound_loadPlayerTable _ _ h).bind fun r t ht => ?_
      dsimp only
      split
      · exact ⟨ht.1, fun ref href => by cases href⟩
      · split
        · rename_i hsome
          refine ⟨ht.1, fun ref href => ?_⟩
          rw [hsome, href]
        · rename_i hnone
          refine (sound_loadTables _ _ ht.1 hnone).bind fun ref u hu => ⟨hu.1, fun r hr => ?_⟩
          rw [← hr, hu.2]
  refine hload.bind fun result t ht => ⟨⟨fun p hp => ?_, ht.1.noneLost, ht.1.length,
    ht.1.apart, ht.1.changes⟩, fun ref href => ⟨?_, ht.2 ref href⟩⟩
  · rcases List.mem_append.mp hp with hp | hp
    · exact ht.1.returned p hp
    · cases result with
      | none => cases hp
      | some ref =>
          obtain rfl := List.mem_singleton.mp hp
          exact ht.2 ref rfl
  · subst href
    exact List.mem_append_right _ (List.mem_singleton_self _)

theorem sound_changeHeld (h : s.Sound) {ref : Nat} (hid : s.playerInfo id = some ref)
    (table : PlainTable) (field : String) (inc : Int) (fast : Bool) :
    SoundTill (fun _ _ => True) (changeHeld id ref table field inc fast s) := by
  unfold changeHeld
  split
  · exact h
  · rename_i user huser
    have hsound := sound_change h hid huser table field inc fast
      (s.sqls ++ (changePlayerAsset s.debug user table field inc fast).sqls)
    dsimp only
    split
    · exact hsound
    · exact ⟨hsound, trivial⟩

theorem sound_handle (e : Event) (h : s.Sound) (he : e.Holds s) :
    (handle e s).Keeps (fun _ _ => True) (fun _ => True) Sound := by
  cases e with
  | load id => exact (sound_load id h).bind fun _ t ht => ht.1
  | changePlayerAsset id table field inc fast =>
      refine (sound_load id h).bind fun result t ht => ?_
      cases result with
      | none => exact ht.1
      | some ref =>
          exact (sound_changeHeld ht.1 (ht.2 ref rfl).2 table field inc fast).bind
            fun _ u hu => hu.1
  | changeHeld id ref table field inc fast =>
      exact (sound_changeHeld h (h.returned _ he) table field inc fast).bind
        fun _ u hu => hu.1
  | objects tables => exact ⟨h.returned, h.noneLost, h.length, h.apart, h.changes⟩

/-! ## Runs -/

abbrev Cache := World State Ask Answer Unit

def Cache.Runs (w : Cache) (i : Input Event Answer) : Prop :=
  w.Admits (fun _ _ => True) (fun s e => e.Holds s) (fun _ => True) i

instance (w : Cache) (i : Input Event Answer) : Decidable (Cache.Runs w i) :=
  inferInstanceAs (Decidable (w.Admits (fun _ _ => True) (fun s e => e.Holds s)
    (fun _ => True) i))

def Cache.start (debug : Bool) (objects : ObjectTables) : Cache := ⟨{ debug, objects }, []⟩

theorem sound_start (debug : Bool) (objects : ObjectTables) :
    (Cache.start debug objects).state.Sound := by
  refine ⟨?_, ?_, rfl, ?_, ?_⟩ <;> simp [Cache.start, State.NoneLost]

/-- All calls that return a record of a player return the one record that is stored, no
record is ever replaced, and none of the changes is lost. -/
theorem one_record_per_player {debug : Bool} {objects : ObjectTables} {v w : Cache}
    (hv : Reach (World.step handle) Cache.Runs (Cache.start debug objects) v)
    (hw : Reach (World.step handle) Cache.Runs v w) :
    (∀ id ref, (id, ref) ∈ w.state.returned → w.state.playerInfo id = some ref) ∧
      (∀ id ref, v.state.playerInfo id = some ref → w.state.playerInfo id = some ref) ∧
      w.state.NoneLost := by
  have hsound := (World.kept_of_reach (sound_start debug objects)
    (fun s e hs he => sound_handle e hs he) (hv.trans hw)).1
  have hstart : (Cache.start debug objects).AllWithin Later := by
    simp [World.AllWithin, Cache.start]
  have hwithin := (World.AllWithin.reach Later.refl (fun h h' => Later.trans h h')
    within_handle hstart hv).1
  exact ⟨fun id ref h => hsound.returned _ h,
    (World.AllWithin.reach Later.refl (fun h h' => Later.trans h h') within_handle
      hwithin hw).2,
    hsound.noneLost⟩

def someRows : Answer :=
  .rows [[("id", .text "10"), ("cash", .number 7), ("prop_type", .text "prop_1"),
    ("app_id", .text "wx")]]

def twoLoads : List (Input Event Answer) :=
  [.command (.load "10"), .command (.load "10")] ++ List.replicate 13 (.answer 0 someRows)

def changedBetween : List (Input Event Answer) :=
  [.command (.changeHeld "10" 0 .playerAsset "cash" 5 true), .answer 0 someRows]

theorem one_record_per_player_twice :
    ∃ v w : Cache, w.state.returned = [("10", 0), ("10", 0)] ∧
      v.state.playerInfo "10" = some 0 ∧ w.state.playerInfo "10" = some 0 ∧
      w.state.NoneLost :=
  let v := run (World.step handle) (Cache.start false {}) twoLoads
  have hrun := one_record_per_player (v := v) (w := run (World.step handle) v changedBetween)
    (reach_run (by decide +kernel)) (reach_run (by decide +kernel))
  ⟨v, run (World.step handle) v changedBetween, by decide +kernel, by decide +kernel,
    hrun.2.1 "10" 0 (by decide +kernel), hrun.2.2⟩

end JyQipai.PlayerInfo
