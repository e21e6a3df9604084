import JyQipai.Ddz.Base

/-!
# The table of a Dou Dizhu room

The record `_d` that `common_ddz_nor_room_service.lua` keeps for each table,
the messages it sends to the agents of the players, and the elementary updates
its commands are made of.  Seats are the numbers 1 to 3.  The countdown of a
table is kept only as the fact that a timer runs.  An update that depends on a
condition is written with the condition inside the field it changes.
-/

namespace JyQipai.Ddz

inductive JdzType where
  | nor
  | mld
  deriving DecidableEq, Repr

theorem nor_of_mld (type : JdzType) (_ : type = .mld) : GameType.nor = .nor := rfl

/-- The configuration of a table.  `new_table` allows the blind mode only for
the game type `nor_ddz_nor`. -/
structure Config where
  gameType : GameType := .nor
  jdzType : JdzType := .nor
  mld_nor : jdzType = .mld → gameType = .nor := by first | exact nor_of_mld _ | decide
  initRate : Nat := 1
  initStake : Nat := 1
  /-- `feng_ding`; 0 if there is no cap. -/
  fengDing : Nat := 0
  baopei : Bool := false
  yingfengding : Bool := false
  jiaBei : Bool := false
  friendgame : Bool := false
  raceCount : Nat := 1
  /-- `chk_player_is_real` -/
  isReal : Nat → Bool := fun _ => true

def Config.seatCount (cfg : Config) : Nat := cfg.gameType.seatCount

def Config.isMld (cfg : Config) : Bool := cfg.jdzType = .mld

inductive Status where
  | waitP
  | ready
  | gameBegin
  | wait
  | fp
  | jdz
  | mldMen
  | mldJb
  | jiabei
  | erQiangdizhu
  | createLz
  | cp
  | settlement
  | gameover
  | gamecancel
  deriving DecidableEq, Repr

inductive Msg where
  | join (seat ready : Nat)
  | readyMsg (seat : Nat)
  | playerExit (seat : Nat)
  | begin (curRace : Nat)
  | startAgain
  | pai (myPai : Option (Finset Nat))
  | jdzPermit (curP : Nat)
  | jdz (act : Act)
  | erQdzPermit (curP : Nat)
  | erQdz (act : Act)
  | dizhu (dizhu : Nat) (dzPai : List Nat) (rate : Nat) (rangpaiNum : Option Nat)
      (men : Option Nat)
  | jiabeiPermit (curP : Nat)
  | myJiabei (act : Act)
  | jiabei (acts : List Act) (rate : Nat)
  | laizi (lz : Nat)
  | cpPermit (curP : Nat) (isMust : Bool)
  | cp (act : Act) (rate : Nat)
  | mldJdzPermit (curP : Nat) (isMustMen : Bool)
  | mldMen (act : Act)
  | mldKan (act : Act)
  | mldKanMyPai (pai : Finset Nat)
  | mldZp (act : Act)
  | mldJiabeiPermit (curP : Nat)
  | mldDao (act : Act)
  | mldLa (act : Act)
  | mldDizhuPai (dzPai : Option (List Nat))
  | auto (seat type : Nat)
  | settlement (isChuntian : Nat) (isOver : Bool)
  | gameover
  | gamecancel
  deriving DecidableEq

/-- The result of a settlement.  `new_game` leaves no `award` table; a missing
entry of the tables is 0. -/
structure SInfo where
  winner : Nat := 0
  award : Option (Nat → Int) := none
  /-- `none` is the value `nan`. -/
  loseSurplus : Nat → Option Int := fun _ => some 0
  pRate : Nat → Nat := fun _ => 0
  autoBaopeiPos : Option Nat := none
  /-- The capped wins; an inner `none` is an entry set to `nil`. -/
  yingfengdingData : Option (Nat → Option Int) := none
  yingfengding : Option (Nat → Nat) := none

/-- A call of `settlement` that waits for its answer. -/
inductive Pending where
  /-- `settlement` asks the farmers for their win caps: the winners not yet
  asked, with their awards, and `all_max_win`. -/
  | capNongmin (todo : List (Nat × Int)) (allMaxWin : Int)
  /-- `settlement` asks the landlord for the win cap. -/
  | capDizhu
  deriving DecidableEq

/-- A call inside the loop `update`, which stands still until the answer. -/
inductive UpdateCall where
  /-- `fapai` asks `player_protect_service` how to deal. -/
  | fapai
  /-- `settlement_finish` pays the scores. -/
  | score
  deriving DecidableEq, Repr

/-- `nor_ddz_room_lib.new_game` -/
structure PlayData where
  dizhu : Nat := 0
  dzCandidate : Nat := 0
  curP : Nat := 0
  actList : List Act := []
  dzPai : List Nat := []
  pai : Nat → Finset Nat := fun _ => ∅
  remainPai : Nat → Int := fun _ => 0

inductive HandField where
  | laizi
  | rangpaiNum
  | nongmin
  | daoLaData
  | isChuntian
  deriving DecidableEq, Repr

inductive Origin where
  | unset
  | thisHand
  | earlierHand
  deriving DecidableEq, Repr

structure Ctrl where
  status : Status := .waitP
  nextStatus : Option Status := none
  /-- A timer runs: `time` is a number. -/
  time : Bool := false
  pending : List Pending := []
  updating : Option UpdateCall := none
  /-- `return_table` has removed the table. -/
  gone : Bool := false

structure Hand where
  pRate : Nat → Nat
  pJdzRate : Nat := 0
  pJdz : Nat → Nat := fun _ => 0
  pJiabei : Nat → Option Nat := fun _ => none
  pCpCount : Nat → Nat := fun _ => 0
  bombCount : Nat := 0
  pBombCount : Nat → Nat := fun _ => 0
  isChuntian : Nat := 0
  sInfo : SInfo := {}
  rangpaiNum : Option Nat := none
  qiangDzCount : Nat := 0
  laizi : Option Nat := none
  nongmin : List Nat := []

structure Mld where
  isMenZhua : Nat := 0
  daoLaData : Nat → Option Nat := fun _ => none
  menData : Nat → Option Nat := fun _ => none
  noZhuaCount : Nat := 0
  pKanPai : Nat → Bool := fun _ => false
  isMustMen : Bool := false

structure Lobby where
  pSeatNumber : Nat → Option Nat := fun _ => none
  playersJoinFlag : Nat → Bool := fun _ => false
  pCount : Int := 0
  ready : Nat → Nat := fun _ => 0
  pReady : Int := 0
  pAuto : Nat → Option Nat := fun _ => none

structure Races where
  raceCount : Nat
  curRace : Nat := 0
  noDizhuCount : Nat := 0
  reFapaiNum : Nat := 0
  isBreakGame : Bool := false

structure Trace where
  /-- The cards played in this hand. -/
  played : Finset Nat := ∅
  /-- The landlord has taken the bottom cards. -/
  dzTaken : Bool := false
  /-- Where the values of the fields come from. -/
  origin : HandField → Origin := fun _ => .unset
  /-- A value of an earlier hand has been read. -/
  staleRead : Bool := false

/-- The record `_d` of a table. -/
structure Table extends Ctrl, Hand, Mld, Lobby, Races, Trace where
  cfg : Config
  play : PlayData := {}
  outbox : List (Nat × Msg) := []

def Config.seatList (cfg : Config) : List Nat := List.range' 1 cfg.seatCount

theorem Config.seat_cases (cfg : Config) :
    (cfg.gameType ≠ .er ∧ cfg.seatCount = 3 ∧ cfg.seatList = [1, 2, 3]) ∨
      (cfg.gameType = .er ∧ cfg.seatCount = 2 ∧ cfg.seatList = [1, 2]) := by
  unfold seatList seatCount GameType.seatCount
  cases cfg.gameType <;> simp [List.range']

theorem Config.seat_le (cfg : Config) {s : Nat} (h : s ∈ cfg.seatList) :
    s ≤ 3 := by
  rcases cfg.seat_cases with ⟨-, -, hl⟩ | ⟨-, -, hl⟩ <;> rw [hl] at h <;>
    simp at h <;> omega

theorem Config.seat_pos (cfg : Config) {s : Nat} (h : s ∈ cfg.seatList) :
    s ≠ 0 := by
  rw [seatList, List.mem_range'_1] at h
  omega

namespace Table

/-- The occupied seats, in the order of `pairs(p_seat_number)`. -/
def seats (t : Table) : List Nat :=
  [1, 2, 3].filter fun s => (t.pSeatNumber s).isSome

/-! ## Messages -/

/-- Sends a message to a seat, if `b` holds and somebody sits there. -/
@[simps cfg play outbox toCtrl toHand toMld toLobby toRaces toTrace]
def sendIf (t : Table) (b : Bool) (seat : Nat) (msg : Msg) : Table :=
  { t with outbox := t.outbox ++
      if b && (t.pSeatNumber seat).isSome then [(seat, msg)] else [] }

@[simps cfg play outbox toCtrl toHand toMld toLobby toRaces toTrace]
def sendAll (t : Table) (msg : Nat → Msg) : Table :=
  { t with outbox := t.outbox ++ t.seats.map fun s => (s, msg s) }

/-! ## Changes of the status -/

@[simps cfg play outbox toCtrl toHand toMld toLobby toRaces toTrace]
def enter (t : Table) (status : Status) : Table :=
  { t with status := status, time := false }

@[simps cfg play outbox toCtrl toHand toMld toLobby toRaces toTrace]
def wait (t : Table) (next : Status) : Table :=
  { t with status := .wait, nextStatus := some next, time := true }

@[simps cfg play outbox toCtrl toHand toMld toLobby toRaces toTrace]
def later (t : Table) (next : Status) : Table :=
  { t with nextStatus := some next, time := true }

/-! ## The action list and the turn -/

@[simps cfg play outbox toCtrl toHand toMld toLobby toRaces toTrace]
def addAct (t : Table) (act : Act) : Table :=
  { t with play := { t.play with actList := t.play.actList ++ [act] } }

@[simps cfg play outbox toCtrl toHand toMld toLobby toRaces toTrace]
def setCurP (t : Table) (p : Nat) : Table :=
  { t with play := { t.play with curP := p } }

@[simps! cfg play outbox toCtrl toHand toMld toLobby toRaces toTrace]
def guo (t : Table) : Table :=
  t.setCurP (if t.cfg.seatCount < t.play.curP + 1 then 1 else t.play.curP + 1)

@[simps cfg play outbox toCtrl toHand toMld toLobby toRaces toTrace]
def setRate (t : Table) (r : Nat → Nat) : Table := { t with pRate := r }

@[simp] theorem setRate_setRate (t : Table) (r r' : Nat → Nat) :
    (t.setRate r).setRate r' = t.setRate r' := rfl

/-- The rate of the seat visited last by `pairs(p_seat_number)`.  The blind
commands overwrite the rate of an action while they send it to the seats, and
the action list keeps the last value. -/
def lastRate (t : Table) (seat : Nat) : Nat :=
  t.pRate (t.seats.getLastD seat)

/-! ## History variables -/

@[simps cfg play outbox toCtrl toHand toMld toLobby toRaces toTrace]
def writeIf (t : Table) (b : Bool) (f : HandField) : Table :=
  { t with origin := fun g => if b && g == f then .thisHand else t.origin g }

@[simps cfg play outbox toCtrl toHand toMld toLobby toRaces toTrace]
def readIf (t : Table) (b : Bool) (f : HandField) : Table :=
  { t with staleRead := t.staleRead || (b && t.origin f == .earlierHand) }

@[simps! cfg play outbox toCtrl toHand toMld toLobby toRaces toTrace]
def write (t : Table) (f : HandField) : Table := t.writeIf true f

@[simps! cfg play outbox toCtrl toHand toMld toLobby toRaces toTrace]
def read (t : Table) (f : HandField) : Table := t.readIf true f

end Table

/-- What a command returns to its caller, and the table after it.  The result is
`none` if the command raised an error. -/
structure Reply where
  result : Option Int
  table : Table

@[simps]
def Table.reply (t : Table) (code : Int) : Reply := ⟨some code, t⟩

@[simps]
def Table.raise (t : Table) : Reply := ⟨none, t⟩

end JyQipai.Ddz
