import JyQipai.Lib.Owned

/-!
# Tables of friend rooms

The part of `friendgame_service` that gives out tables: the stack of the rooms with free
tables, the counters of each room, and the tables that are in use.  The calls that create a
room are serialised by `thread_start` and `thread_over`.  A thread that is woken runs before
the next message.  Players, votes and places are left out.
-/

namespace JyQipai.Friendgame

open Lib

abbrev GameType := String
abbrev RoomNo := String
abbrev RoomId := String
abbrev PlayerId := String

/-- `none` is the `false` of a room without a free table. -/
abbrev TableId := Option Nat

structure RoomInfo where
  maxTableNum : Int
  curNum : Int
  deriving DecidableEq, Repr

/-- What `trans_friend_cfg.translate_game` makes of the configuration of a player. -/
structure GameConfig where
  initStake : Int := 1
  initRate : Int := 1
  raceCount : Nat
  deriving DecidableEq, Repr

structure GameInfo where
  gameType : GameType
  roomId : RoomId
  tNum : TableId
  gameConfig : GameConfig
  maxPlayer : Nat
  roomOwner : PlayerId
  roomRent : Int
  chatRoomId : Option Nat
  deriving DecidableEq, Repr

/-- What `create_game_room` returns for a game that was created. -/
structure Created where
  roomId : RoomId
  tNum : TableId
  roomRent : Int
  chatRoomId : Option Nat
  deriving DecidableEq, Repr

abbrev RoomTables := AList fun _ : TableId => RoomNo

/-- `woken` says that a thread was woken and has not run yet. -/
structure Rooms where
  myId : String := "friendgame_service_1"
  chatService : Bool := false
  roomRentCfg : GameType → Nat → Option Int := fun _ _ => none
  availableTables : GameType → List RoomId := fun _ => []
  roomInfo : GameType → RoomId → Option RoomInfo := fun _ _ => none
  tableInfo : RoomId → Option RoomTables := fun _ => none
  gameInfo : RoomNo → Option GameInfo := fun _ => none
  roomCount : Nat := 0
  lock : Bool := false
  threads : Nat := 0
  woken : Bool := false

inductive Call where
  | wait
  | create (gameType : GameType) (roomId : RoomId)
  | getFreeTableNum (roomId : RoomId)
  | newTable (roomId : Option RoomId) (roomNo : RoomNo) (gameType : GameType)
  | createChatRoom
  | clearRoomNo (roomNo : RoomNo)
  deriving DecidableEq, Repr

/-- `callFail` is the result of a call whose service is not found; `error` is raised in the
caller. -/
inductive Answer where
  | ok
  | state (code : Int)
  | num (n : Nat)
  | table (id : TableId)
  | chatRoom (id : Nat)
  | callFail
  | error
  deriving DecidableEq, Repr

abbrev Op (α : Type) := Handler Rooms Call Answer α

namespace Rooms

/-! ## Threads -/

def threadStart : Op Unit := fun s =>
  if s.lock then
    .call { s with threads := s.threads + 1 } .wait fun _ s =>
      .done { s with lock := true, woken := false } ()
  else .done { s with lock := true } ()

def threadOver (s : Rooms) : Rooms :=
  { s with lock := false, woken := 0 < s.threads, threads := s.threads - 1 }

/-! ## Rooms -/

def roomIdOf (myId : String) (n : Nat) : RoomId := myId ++ "_room_" ++ n.repr

def createRoomId (s : Rooms) : RoomId × Rooms :=
  (roomIdOf s.myId (s.roomCount + 1), { s with roomCount := s.roomCount + 1 })

def setTables (s : Rooms) (roomId : RoomId) (tables : RoomTables) : Rooms :=
  { s with tableInfo := Function.update s.tableInfo roomId (some tables) }

def setRoom (s : Rooms) (gameType : GameType) (roomId : RoomId) (info : RoomInfo) :
    Rooms :=
  { s with
    roomInfo := Function.update s.roomInfo gameType
      (Function.update (s.roomInfo gameType) roomId (some info)) }

def setAvailable (s : Rooms) (gameType : GameType) (tables : List RoomId) : Rooms :=
  { s with availableTables := Function.update s.availableTables gameType tables }

theorem tableInfo_setTables (s : Rooms) (roomId : RoomId) (tables : RoomTables) :
    (s.setTables roomId tables).tableInfo = Function.update s.tableInfo roomId (some tables) :=
  rfl

theorem availableTables_setAvailable (s : Rooms) (gameType : GameType) (tables : List RoomId) :
    (s.setAvailable gameType tables).availableTables =
      Function.update s.availableTables gameType tables :=
  rfl

theorem roomInfo_setRoom (s : Rooms) (gameType g : GameType) (roomId r : RoomId)
    (info : RoomInfo) : (s.setRoom gameType roomId info).roomInfo g r =
      if g = gameType ∧ r = roomId then some info else s.roomInfo g r := by
  change Function.update s.roomInfo gameType _ g r = _
  by_cases hg : g = gameType
  · subst hg
    rw [Function.update_self]
    by_cases hr : r = roomId
    · rw [hr, Function.update_self, if_pos ⟨rfl, rfl⟩]
    · rw [Function.update_of_ne hr, if_neg fun h => hr h.2]
  · rw [Function.update_of_ne hg, if_neg fun h => hg h.1]

def addRoom (s : Rooms) (gameType : GameType) (roomId : RoomId) (num : Nat) : Rooms :=
  (s.setRoom gameType roomId { maxTableNum := num, curNum := num }).setAvailable gameType
    (s.availableTables gameType ++ List.replicate num roomId)

/-- The first part of `create_game_room` behind `thread_start`: a room is made when there is
no free table. -/
def createRoom (gameType : GameType) : Op (Except Int Unit) := fun s =>
  if s.availableTables gameType ≠ [] then .done s (.ok ())
  else
    let (roomId, s) := s.createRoomId
    .call s (.create gameType roomId) fun
      | .ok, s =>
          .call (s.setTables roomId ∅) (.getFreeTableNum roomId) fun
            | .num n, s => .done (s.addRoom gameType roomId n) (.ok ())
            | .callFail, s => .done s.threadOver (.error 1000)
            | _, s => .raised s
      | .state code, s => .done s.threadOver (.error code)
      | _, s => .raised s

/-- A table is recorded and taken from the stack; without the records of the room an error
is raised. -/
def seat (gameType : GameType) (roomId : Option RoomId) (tableId : TableId) (roomNo : RoomNo) :
    Op RoomId := fun s =>
  match roomId with
  | none => .raised s
  | some roomId =>
      match s.tableInfo roomId with
      | none => .raised s
      | some tables =>
          let s := s.setTables roomId (tables.insert tableId roomNo)
          match s.roomInfo gameType roomId with
          | none => .raised s
          | some info =>
              let s := s.setRoom gameType roomId { info with curNum := info.curNum - 1 }
              .done (s.setAvailable gameType (s.availableTables gameType).dropLast) roomId

def createChatRoom : Op (Option Nat) := fun s =>
  if s.chatService then
    .call s .createChatRoom fun
      | .chatRoom id, s => .done s (some id)
      | _, s => .raised s
  else .done s none

def setGame (s : Rooms) (roomNo : RoomNo) (info : Option GameInfo) : Rooms :=
  { s with gameInfo := Function.update s.gameInfo roomNo info }

/-- The rest of `create_game_room`, once there is a free table. -/
def newTable (playerId : PlayerId) (roomNo : RoomNo) (gameType : GameType)
    (config : GameConfig) (rent : Int) (maxPlayer : Nat) : Op (Except Int Created) := fun s =>
  let roomId := (s.availableTables gameType).getLast?
  .call s (.newTable roomId roomNo gameType) fun
    | .callFail, s => .done s.threadOver (.error 1000)
    | .table tNum, s =>
        (seat gameType roomId tNum roomNo s).bind fun roomId s =>
          (createChatRoom s).bind fun chatRoomId s =>
            let info : GameInfo :=
              { gameType, roomId, tNum, gameConfig := config, maxPlayer, roomOwner := playerId,
                roomRent := rent, chatRoomId }
            .done (s.setGame roomNo (some info)).threadOver
              (.ok { roomId, tNum, roomRent := rent, chatRoomId })
    | _, s => .raised s

def createGameRoom (playerId : PlayerId) (roomNo : RoomNo) (gameType : GameType)
    (config : GameConfig) (roomCard : Int) (maxPlayer : Nat) : Op (Except Int Created) := fun s =>
  match s.roomRentCfg gameType config.raceCount with
  | none => .done s (.error 1001)
  | some rent =>
      if roomCard < rent then .done s (.error 1026)
      else
        (threadStart s).bind fun _ s => (createRoom gameType s).bind fun r s =>
          match r with
          | .error code => .done s (.error code)
          | .ok () => newTable playerId roomNo gameType config rent maxPlayer s

/-! ## The end of a game -/

def recycle (s : Rooms) (gameType : GameType) (roomId : RoomId) (tables : RoomTables)
    (tableId : TableId) (room : RoomInfo) : Rooms :=
  (s.setRoom gameType roomId { room with curNum := room.curNum + 1 }).setTables roomId
    (tables.erase tableId)

def tableFinish (roomId : RoomId) (tableId : TableId) : Op Unit := fun s =>
  match s.tableInfo roomId with
  | none => .done s ()
  | some tables =>
      match tables.lookup tableId with
      | none => .done s ()
      | some roomNo =>
          match s.gameInfo roomNo with
          | none => .raised s
          | some info =>
              let s := s.setAvailable info.gameType (s.availableTables info.gameType).dropLast
              match s.roomInfo info.gameType roomId with
              | none => .raised s
              | some room =>
                  .call ((s.recycle info.gameType roomId tables tableId room).setGame roomNo none)
                      (.clearRoomNo roomNo) fun
                    | .ok, s => .done s ()
                    | _, s => .raised s

end Rooms

inductive Event where
  | createGameRoom (playerId : PlayerId) (roomNo : RoomNo) (gameType : GameType)
    (config : GameConfig) (roomCard : Int) (maxPlayer : Nat)
  | tableFinish (roomId : RoomId) (tableId : TableId)
  | reloadConfig (roomRentCfg : GameType → Nat → Option Int)

def handle : Event → Op Unit
  | .createGameRoom playerId roomNo gameType config roomCard maxPlayer, s =>
      (s.createGameRoom playerId roomNo gameType config roomCard maxPlayer).bind fun _ s =>
        .done s ()
  | .tableFinish roomId tableId, s => s.tableFinish roomId tableId
  | .reloadConfig roomRentCfg, s => .done { s with roomRentCfg } ()

end JyQipai.Friendgame
