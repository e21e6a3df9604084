import JyQipai.Lib.Coroutine
import JyQipai.Lib.Float
import JyQipai.Mj.Base

/-!
# The table of a Mahjong room

The record `_d` that `common_mj_xzdd_room_service.lua` keeps for each table, and
the elementary updates its commands are made of.  Seats are the numbers 1 to 4.
A command is a `Prog`: it waits at each call of an agent.  The random numbers
that an event draws are part of the table (`rand`).  Of the messages to the
agents only the settlement is kept; special deals (`special_deal_data`, lucky
seats) and the logs of a hand are left out.
-/

namespace JyQipai.Mj

open JyQipai.Lib

structure Config where
  gameType : GameType := .xzdd
  algo : Algo
  /-- The number of the table in its room. -/
  tNum : Nat := 1
  initStake : Nat := 1
  raceCount : Nat := 1
  /-- `max_rate` -/
  fengDing : Option Nat := none
  yingfengding : Bool := false
  breakExit : Bool := false
  daPiao : Bool := false
  huanSanZhang : Bool := false
  zhuanYu : Bool := false
  /-- `back_money_cmd` is set. -/
  backMoney : Bool := false

def Config.seatCount (cfg : Config) : Nat := cfg.gameType.seatCount

def Config.seatList (cfg : Config) : List Nat := List.range' 1 cfg.seatCount

theorem Config.seatList_nodup (cfg : Config) : cfg.seatList.Nodup := List.nodup_range'

inductive Status where
  | waitP
  | ready
  | gameBegin
  | wait
  | touSezi
  | fapai
  | huanPai
  | huanPaiFinish
  | daPiao
  | daPiaoFinish
  | dingQue
  | dingQueFinish
  | start
  | cp
  | cpFinish
  | moPai
  | pengGangHu
  | qiangGangHu
  | settlement
  | gameover
  | gamecancel
  deriving DecidableEq, Repr

structure Permit where
  cp : Bool := false
  hu : Option HuInfo := none
  peng : Bool := false
  gang : Bool := false
  guo : Bool := false
  deriving DecidableEq, Repr

structure Gang where
  gangType : PgType
  pai : Nat
  mul : Nat
  others : List Nat
  score : Int
  loseSurplus : Int
  zhuanYuTo : Option Nat := none
  deriving DecidableEq, Repr

inductive SettleType where
  | hu
  | ting
  | hz
  | wujiao
  deriving DecidableEq, Repr

/-- `s_info[seat]` -/
structure SInfo where
  score : Int := 0
  loseSurplus : Int := 0
  gangScore : List Gang := []
  total : Nat := 0
  huType : Option HuType := none

structure HuAct where
  p : Nat
  huType : HuType
  info : HuInfo
  deriving DecidableEq, Repr

structure SeatPai where
  pai : PaiMap := fun _ => none
  pgType : PgMap := fun _ => none
  pgPai : Nat → Nat := fun _ => 0
  pgVec : List Nat := []
  moPai : Option Nat := none
  piaoNum : Int := -1
  isHuanPai : Bool := false

structure Ctrl where
  status : Status := .waitP
  nextStatus : Option Status := none
  /-- `return_table` has removed the table. -/
  gone : Bool := false
  /-- The room service is caught in an endless loop; it does not come to any
  later step. -/
  hung : Bool := false

structure Lobby where
  pSeatNumber : Nat → Option Nat := fun _ => none
  onLinePlayer : Nat → Option Nat := fun _ => none
  playersJoinFlag : Nat → Bool := fun _ => false
  pCount : Int := 0
  ready : Nat → Nat := fun _ => 0
  pReady : Int := 0
  /-- `p_info[seat].score`, the money a seat came with. -/
  pScore : Nat → Int := fun _ => 0

structure Standing where
  huNum : Nat := 0
  /-- `hu_order`; 0 for a seat that went bankrupt. -/
  huOrder : Nat → Option Nat := fun _ => none
  gameBankrupt : Nat → Bool := fun _ => false

/-- `play_data` without `hu_order`.  The pool is listed from its end, where tiles
are taken. -/
structure PlayData where
  zhuangSeat : Nat := 0
  curP : Nat := 0
  curChupai : Option (Nat × Nat) := none
  paiPool : List Nat := []
  paiEmpty : Bool := false
  pDingQue : Nat → Option Nat := fun _ => none
  seat : Nat → SeatPai := fun _ => {}
  isQuit : Nat → Bool := fun _ => false

structure Permits where
  pPermit : Nat → Option Permit := fun _ => none
  pActionDone : Nat → Bool := fun _ => false
  pPermitPghCount : Int := 0
  pPermitHCount : Int := 0
  qghPermitCount : Int := 0
  pIgnoreHu : Nat → Option (Option Nat × Nat) := fun _ => none
  waitHuActions : Nat → Option HuAct := fun _ => none
  waitPgAction : Option Act := none
  qghManagerWaitHu : Nat → Option HuAct := fun _ => none
  curWanGang : Option Act := none

structure Course where
  actionList : List Act := []
  pMopaiCount : Nat → Nat := fun _ => 0
  pCpCount : Nat → Nat := fun _ => 0
  lastGangSeat : Option Nat := none
  zhuanYuSeat : Option Nat := none

structure Races where
  curRace : Nat := 1
  isBreakGame : Bool := false
  isBreakRace : Bool := false

/-- A rain transfer: from which seat to which, by which win, and the action list
when the win was announced. -/
structure Transfer where
  src : Nat
  dst : Nat
  huType : HuType
  dianpaoP : Option Nat
  acts : List Act

structure Trace where
  /-- What `deal_change_score` has changed, by hand and seat. -/
  money : Nat → Nat → Int := fun _ _ => 0
  /-- The scores of the settlement message, by hand. -/
  reported : Nat → Option (Nat → Int) := fun _ => none
  transfers : List Transfer := []
  /-- A payment was booked after the settlement message of its hand, or in a later
  hand. -/
  late : Bool := false
  /-- The tests for the end of a hand: whether they ended it, and the number of
  seats without `hu_order`. -/
  checks : List (Bool × Nat) := []
  /-- A check for bankruptcy has replaced the `hu_order` of a winner. -/
  overwritten : Bool := false

/-- The record `_d` of a table. -/
structure Table extends Ctrl, Lobby, Standing, PlayData, Permits, Course, Races,
    Trace where
  cfg : Config
  sInfo : Nat → SInfo := fun _ => {}
  rand : Nat → Nat := fun _ => 0

/-- The calls of the room: an agent changes its score or names its win cap, the
log is written, or the manager takes the table back. -/
inductive Query where
  | modifyScore (seat : Nat) (score : Int)
  | yingfengding (seat : Nat)
  | raceLog
  | tableFinish
  deriving DecidableEq, Repr

structure Answer where
  value : Int := 0
  rand : Nat → Nat := fun _ => 0

abbrev M (α : Type) := Prog Table Query Answer α

def random (ρ : Nat → Nat) (k lo hi : Nat) : Nat := lo + ρ k % (hi + 1 - lo)

def randomList (ρ : Nat → Nat) (list : List Nat) : List Nat :=
  (List.range' 1 (list.length - 1)).foldl
    (fun l i =>
      let j := random ρ i i list.length
      (l.set (i - 1) (l.getD (j - 1) 0)).set (j - 1) (l.getD (i - 1) 0)) list

namespace Table

def ask (t : Table) (q : Query) (k : Int → Table → M α) : M α :=
  .call t q fun a u => k a.value { u with rand := a.rand }

def enter (t : Table) (status : Status) : Table := { t with status := status }

def wait (t : Table) (next : Status) : Table :=
  { t with status := .wait, nextStatus := some next }

def addAct (t : Table) (act : Act) : Table :=
  { t with actionList := t.actionList ++ [act] }

def setSeat (t : Table) (s : Nat) (f : SeatPai → SeatPai) : Table :=
  { t with seat := Function.update t.seat s (f (t.seat s)) }

def setPermit (t : Table) (s : Nat) (p : Permit) : Table :=
  { t with pPermit := Function.update t.pPermit s (some p) }

def setDone (t : Table) (s : Nat) (b : Bool) : Table :=
  { t with pActionDone := Function.update t.pActionDone s b }

/-- The seats of the online players, in the order of `pairs(on_line_player)`. -/
def onLine (t : Table) : List Nat :=
  t.cfg.seatList.filter fun s => (t.onLinePlayer s).isSome

def seats (t : Table) : List Nat :=
  t.cfg.seatList.filter fun s => (t.pSeatNumber s).isSome

def paiCount (t : Table) : Nat := t.paiPool.length

/-- `get_hupai_all_info` for the tiles of a seat, after an action. -/
def hupai (t : Table) (s : Nat) : Option HuInfo :=
  (t.cfg.algo.getHupaiAllInfo (t.seat s).pai (t.seat s).pgType (t.pDingQue s)
    t.actionList s t.zhuangSeat (t.pMopaiCount s) (t.pCpCount s) t.paiCount).join

def active (t : Table) : List Nat :=
  t.cfg.seatList.filter fun s => (t.huOrder s).isNone

def seatsAfter (t : Table) (s : Nat) : List Nat :=
  (List.range t.cfg.seatCount).map fun k => (s + k) % t.cfg.seatCount + 1

def nextOperSeat (t : Table) (s : Nat) : Option Nat :=
  (t.seatsAfter s).find? fun x => (t.huOrder x).isNone

end Table

end JyQipai.Mj
