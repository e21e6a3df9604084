import JyQipai.Ddz.Hint
import JyQipai.Ddz.Room

/-!
# The agent of a player

`normal_ddz_nor_agent.lua`: the record `s_info` and the locals that an agent
keeps, what it does with each message of the room, and the requests of its
client.  A handler that raises an error keeps the assignments made before the
error.  Countdowns, rates, the messages to the client and the notices `auto` to
the room are left out.
-/

namespace JyQipai.Ddz

open Table (ChupaiArgs)

inductive AgentStatus where
  | ready
  | begin
  | fp
  | jdz
  | qDizhu
  | setDz
  | jiabei
  | cp
  | settlement
  | gameover
  deriving DecidableEq, Repr

/-- The state of an agent.  `laizi` is 0 while there is no wildcard, and of the
table `ready` only the agent's own entry is kept.  `menData` stands for the
three tables that `new_game` creates in the blind mode. -/
structure Agent where
  seatNum : Nat
  gameType : GameType
  jdzType : JdzType
  kaiguan : Nat → Bool
  status : AgentStatus := .ready
  actFlag : Bool := false
  ready : Option Nat := none
  isOver : Bool := false
  curP : Nat := 0
  dizhu : Nat := 0
  actList : List Act := []
  jiabei : Nat := 0
  laizi : Nat := 0
  laiziNum : Int := 0
  paiData : Option PaiData := none
  paiList : Option (Multiset Nat) := none
  remainPai : Option (Nat → Int) := none
  jipaiqi : Option (Nat → Int) := none
  autoStatus : Nat → Nat := fun _ => 0
  qiangDzCount : Option Nat := none
  menData : Option (Nat → Nat) := none
  isMustOpt : Bool := false

def getAllPaiCount (gameType : GameType) (type : Nat) : Int :=
  if type = 16 ∨ type = 17 then 1
  else if (if gameType = .er then 5 else 3) ≤ type ∧ type ≤ 15 then 4
  else 0

def jipaiqiNor (pai : Multiset Nat) (count : Nat → Int) (type : Nat) : Int :=
  count type - pai.countP fun id => paiMap id = type

def jipaiqi (cp : Option CpList) (count : Nat → Int) (laizi : Nat) :
    Option (Nat → Int) :=
  match cp with
  | none => some count
  | some cp =>
      let count := jipaiqiNor cp.norIds count
      match cp.lz with
      | none => some count
      | some lz =>
          if laizi = 0 then none
          else some (Function.update count laizi (count laizi - lz.length))

namespace Agent

def isMld (a : Agent) : Bool := a.jdzType = .mld

def laiziType (a : Agent) : Option Nat :=
  if a.laizi = 0 then none else some a.laizi

/-! ## Updates -/

@[simps]
def addAct (a : Agent) (act : Act) : Agent :=
  { a with actList :=
      if a.actList.length = 2 then a.actList.drop 1 ++ [act]
      else a.actList ++ [act] }

@[simps]
def newGame (a : Agent) : Agent :=
  { a with
    curP := 0
    paiList := none
    remainPai := none
    jipaiqi := none
    actList := []
    autoStatus := fun _ => 0
    dizhu := 0
    laizi := 0
    laiziNum := 0
    jiabei := 0
    qiangDzCount := if a.gameType = .er then some 0 else a.qiangDzCount
    menData := if a.isMld then some fun _ => 0 else a.menData
    paiData := none }

@[simps]
def init (a : Agent) : Agent :=
  { seatNum := a.seatNum, gameType := a.gameType, jdzType := a.jdzType
    kaiguan := a.kaiguan }

@[simps]
def setPai (a : Agent) (pai : Finset Nat) : Agent :=
  { a with
    paiList := some pai.val
    paiData := some ⟨pai, some fun type => getPaiTypeHash pai type⟩ }

/-- The landlord's agent adds the bottom cards to its cards; `none` if it has
not seen its cards. -/
def takeDzPai (a : Agent) (dzPai : List Nat) : Option Agent :=
  match a.paiData, a.paiList with
  | some data, some list =>
      let pai := data.pai ∪ dzPai.toFinset
      some { a with
        paiData := some ⟨pai, some fun type => getPaiTypeHash pai type⟩
        paiList := some (list + dzPai) }
  | _, _ => none

@[simps]
def initJipaiqi (a : Agent) : Agent :=
  let count := jipaiqiNor (a.paiList.getD 0) (getAllPaiCount a.gameType)
  { a with jipaiqi := some count }

/-! ## Messages of the room -/

def paiMsg (a : Agent) (pai : Option (Finset Nat)) : Agent :=
  let a := { a with
    status := .fp
    remainPai := some fun s =>
      if s = 3 ∧ a.gameType = .er then 9 else 17
    paiList := none }
  match pai with
  | none => a
  | some pai => a.setPai pai

/-- `CMD.nor_ddz_nor_dizhu_msg`.  In the blind mode the bottom cards follow in a
message of their own. -/
def dizhuMsg (a : Agent) (dizhu : Nat) (dzPai : List Nat) : Agent :=
  if a.isMld then { a with status := .setDz, dizhu := dizhu }
  else
    match a.remainPai with
    | none => a
    | some remain =>
        let a := { a with
          remainPai := some (Function.update remain dizhu 20)
          status := .setDz
          dizhu := dizhu }
        if dizhu = a.seatNum then
          match a.takeDzPai (dzPai.take 3) with
          | none => a
          | some a => a.initJipaiqi
        else a.initJipaiqi

/-- `CMD.nor_ddz_mld_dizhu_pai_msg`.  Bottom cards that are not shown read as
`{0,0,0}`; the landlord is always shown them. -/
def mldDizhuPaiMsg (a : Agent) (dzPai : Option (List Nat)) : Agent :=
  let taken :=
    if a.dizhu = a.seatNum then a.takeDzPai ((dzPai.getD [0, 0, 0]).take 3)
    else some a
  match taken with
  | none => a
  | some a =>
      match a.remainPai with
      | none => a
      | some remain =>
          initJipaiqi
            { a with remainPai := some (Function.update remain a.dizhu 20) }

def laiziMsg (a : Agent) (lz : Nat) : Agent :=
  let a := { a with status := .setDz, laizi := lz }
  match a.paiData with
  | none => a
  | some data => { a with laiziNum := (data.hash.getD fun _ => 0) lz }

def ownPlay (a : Agent) (act : Act) : Agent :=
  match a.paiData with
  | none => a
  | some data =>
      match deductPaiByCpList data act.cpList a.laiziType with
      | (data, false) => { a with paiData := some data }
      | (data, true) =>
          { a with
            paiData := some data
            laiziNum := a.laiziNum - act.laziNum }

def otherPlay (a : Agent) (act : Act) : Agent :=
  match a.jipaiqi with
  | none => a
  | some count =>
      match Ddz.jipaiqi act.cpList count a.laizi with
      | none => { a with
          jipaiqi := some (jipaiqiNor (act.cpList.getD {}).norIds count) }
      | some count => { a with jipaiqi := some count }

def cpMsg (a : Agent) (act : Act) : Agent :=
  let a := a.addAct act
  if act.type = 0 then a
  else
    match a.remainPai with
    | none => a
    | some remain =>
        let a := { a with remainPai := some (Function.update remain act.p
          (remain act.p - act.mergeCpList.length)) }
        if act.p = a.seatNum then a.ownPlay act else a.otherPlay act

/-- `CMD.nor_ddz_mld_jdz_permit`: a seat that has not looked at its cards must
perhaps call blind, one that has must call with good cards. -/
def mldJdzPermit (a : Agent) (curP : Nat) (isMustMen : Bool) : Agent :=
  let a := { a with status := .jdz, curP := curP }
  if a.seatNum = curP then
    match a.menData with
    | none => a
    | some men =>
        if men a.seatNum = 0 then { a with isMustOpt := isMustMen }
        else
          match a.paiData with
          | none => a
          | some data =>
              { a with isMustOpt :=
                  a.isMustOpt || isMustZhua (data.hash.getD fun _ => 0) }
  else a

/-- An action of the blind bidding is recorded, after a table that `new_game`
creates has been written. -/
def addMldAct (a : Agent) (act : Act) : Agent :=
  let a := { a with
    isMustOpt := if act.p = a.seatNum then false else a.isMustOpt }
  if a.menData.isNone then a else a.addAct act

def receive (a : Agent) : Msg → Agent
  | .join seat ready =>
      if seat = a.seatNum then
        { a.init with status := .ready, ready := some ready }
      else a
  | .readyMsg seat =>
      if a.ready.isNone ∨ seat ≠ a.seatNum then a
      else { a.newGame with ready := some 1, status := .ready }
  | .playerExit seat =>
      if a.ready.isNone ∨ seat ≠ a.seatNum then a
      else { a with ready := some 0 }
  | .begin _ => { a with status := .begin, ready := none }
  | .startAgain => a.newGame
  | .pai pai => a.paiMsg pai
  | .jdzPermit curP => { a with status := .jdz, curP := curP }
  | .jdz act => a.addAct act
  | .erQdzPermit curP => { a with status := .qDizhu, curP := curP }
  | .erQdz act =>
      if act.rate = 1 then
        match a.qiangDzCount with
        | none => a
        | some n => { a with qiangDzCount := some (n + 1) }.addAct act
      else a.addAct act
  | .dizhu dizhu dzPai _ _ _ => a.dizhuMsg dizhu dzPai
  | .jiabeiPermit curP => { a with status := .jiabei, curP := curP }
  | .myJiabei act => { a.addAct act with jiabei := 1 }
  | .jiabei acts _ =>
      (acts.filter fun act => act.p ≠ a.seatNum).foldl addAct a
  | .laizi lz => a.laiziMsg lz
  | .cpPermit curP _ => { a with status := .cp, curP := curP }
  | .cp act _ => a.cpMsg act
  | .mldJdzPermit curP isMustMen => a.mldJdzPermit curP isMustMen
  | .mldMen act =>
      match a.menData with
      | none => if act.p = a.seatNum then a else a.addAct act
      | some men => { a.addMldAct act with
          menData := some (Function.update men act.p 2) }
  | .mldKan act =>
      { a with menData := a.menData.map fun men => Function.update men act.p 1 }
  | .mldKanMyPai pai => a.setPai pai
  | .mldZp act => a.addMldAct act
  | .mldJiabeiPermit curP => { a with status := .jiabei, curP := curP }
  | .mldDao act => a.addMldAct act
  | .mldLa act =>
      -- unlike `mld_dao_msg`, this handler leaves `is_must_mld_opt` alone
      { a.addMldAct act with isMustOpt := a.isMustOpt }
  | .mldDizhuPai dzPai => a.mldDizhuPaiMsg dzPai
  | .auto seat type =>
      { a with autoStatus := Function.update a.autoStatus seat type }
  | .settlement _ isOver =>
      { a with
        status := .settlement
        ready := if isOver then a.ready else some 0
        isOver := isOver }
  | .gameover => { a with status := .gameover }
  | .gamecancel => a

/-! ## Requests of the client -/

end Agent

/-- The requests of a client; an argument that is missing is `none`. -/
inductive Request where
  | ready
  | jiabei (rate : Option Int)
  | jiaoDizhu (rate : Option Int)
  | chupai (type : Option Int) (cpList : Option CpList)
  | auto (operate : Option Int)
  | erQDizhu (rate : Option Int)
  | mldMenZhua (opt : Option Int)
  | mldZhuaPai (opt : Option Int)
  | mldDaoLa (opt : Option Int)
  deriving DecidableEq, Repr

/-- How a request handler goes on: it returns a result, raises an error, or
calls the room and waits for the answer. -/
inductive Outcome where
  | returned (result : Int)
  | raised
  | called (event : Event)

namespace Agent

@[simps]
def cancelAuto (a : Agent) : Agent :=
  { a with autoStatus := fun s =>
      if s = a.seatNum ∧ a.autoStatus s = 1 then 0 else a.autoStatus s }

@[simps]
def setAuto (a : Agent) : Agent :=
  { a with autoStatus := fun s =>
      if s = a.seatNum ∧ a.autoStatus s = 0 then 1 else a.autoStatus s }

/-- The type is switched on, or the last three cards are played; `none` if the
remaining cards are read before the deal. -/
def typeAllowed (a : Agent) (type : Int) : Option Bool :=
  if 0 ≤ type ∧ a.kaiguan type.toNat then some true
  else a.remainPai.map fun remain => type = 3 ∧ remain a.seatNum = 3

/-- The ordinary cards are different cards of the hand and no wildcards; `none`
if a card is looked up before the deal. -/
def norAllowed (a : Agent) (nor : List Nat) : Option Bool :=
  if nor = [] then some true
  else a.paiData.map fun data =>
    nor.Nodup ∧ ∀ id ∈ nor, id ∈ data.pai ∧ paiMap id ≠ a.laizi

/-- The checks of `REQUEST.nor_ddz_nor_chupai` on the card list of a play that is
no pass: the number of wildcards. -/
def checkCpList (a : Agent) (cp : CpList) : Except Outcome Nat :=
  match a.norAllowed cp.norIds with
  | none => .error .raised
  | some false => .error (.returned 1001)
  | some true =>
      match cp.lz with
      | none => .ok 0
      | some lz =>
          if a.gameType = .nor then .error (.returned 1001)
          else if a.laiziNum < lz.length then .error (.returned 1001)
          else .ok lz.length

/-- The checks of `REQUEST.nor_ddz_nor_chupai` before it sets the lock: the
merged cards and the number of wildcards. -/
def checkChupai (a : Agent) (type : Int) (cpList : Option CpList) :
    Except Outcome (List Nat × Nat) :=
  match a.typeAllowed type with
  | none => .error .raised
  | some false => .error (.returned 1003)
  | some true =>
      let num : Except Outcome Nat :=
        if type = 0 then .ok 0
        else
          match cpList with
          | none => .error (.returned 1001)
          | some cp => a.checkCpList cp
      match num with
      | .error o => .error o
      | .ok laziNum =>
          match mergeNorAndLz cpList with
          | none => .error (.returned 1001)
          | some merged => .ok (merged, laziNum)

@[simps]
def lock (a : Agent) : Agent := { a with actFlag := true }

/-- `REQUEST.nor_ddz_nor_chupai` after its first checks.  It sets the lock, and
a play whose cards do not have the announced type returns without clearing
it. -/
def requestChupai (a : Agent) (type : Int) (cpList : Option CpList) :
    Agent × Outcome :=
  let a := a.cancelAuto
  match a.checkChupai type cpList with
  | .error o => (a, o)
  | .ok (merged, laziNum) =>
      let a := a.lock
      match getPaiType merged laziNum with
      | none => (a, .raised)
      | some none => (a, .returned 1003)
      | some (some p) =>
          if (p.type : Int) ≠ type then (a, .returned 1003)
          else (a, .called (.chupai a.seatNum
            { type := p.type, keyPai := p.pai, cpList := cpList
              mergeCpList := merged, laziNum := laziNum }))

/-- A request with one number: the status and the turn are checked, then the
number, then the obligation to choose 1; then the room is called under the
lock. -/
def requestNumber (a : Agent) (allowed : Bool) (number : Option Int)
    (inRange : Int → Bool) (refused : Int → Bool) (call : Nat → Event) :
    Agent × Outcome :=
  if a.actFlag ∨ ¬ allowed then (a, .returned 1002)
  else
    match number with
    | none => (a, .returned 1001)
    | some n =>
        if ¬ inRange n then (a, .returned 1001)
        else if refused n then (a, .returned 1002)
        else (a.lock, .called (call n.toNat))

def request (a : Agent) : Request → Agent × Outcome
  | .ready =>
      if a.actFlag ∨ a.ready ≠ some 0 ∨ a.isOver then (a, .returned 1008)
      else (a.lock, .called (.ready a.seatNum))
  | .jiabei rate =>
      a.requestNumber (a.status = .jiabei ∧ a.jiabei ≠ 1) rate
        (fun n => n = 0 ∨ n = 2) (fun _ => false) (.jiabei a.seatNum)
  | .jiaoDizhu rate =>
      a.requestNumber (a.status = .jdz ∧ a.curP = a.seatNum) rate
        (fun n => 0 ≤ n ∧ n ≤ 3) (fun _ => false) (.jiaoDizhu a.seatNum)
  | .chupai type cpList =>
      if a.actFlag ∨ a.status ≠ .cp ∨ a.curP ≠ a.seatNum then
        (a, .returned 1002)
      else
        match type with
        | none => (a, .returned 1001)
        | some type => a.requestChupai type cpList
  | .auto operate =>
      if a.actFlag ∨ a.status ≠ .cp then (a, .returned 1002)
      else if operate = some 1 then (a.setAuto, .returned 0)
      else if operate = some 0 then (a.cancelAuto, .returned 0)
      else (a, .returned 1003)
  | .erQDizhu rate =>
      a.requestNumber (a.status = .qDizhu ∧ a.curP = a.seatNum) rate
        (fun n => 0 ≤ n ∧ n ≤ 1) (fun _ => false) (.erQiangDizhu a.seatNum)
  | .mldMenZhua opt =>
      a.requestNumber (a.status = .jdz ∧ a.curP = a.seatNum) opt
        (fun n => n = 0 ∨ n = 1) (fun n => a.isMustOpt ∧ n ≠ 1) (.men a.seatNum)
  | .mldZhuaPai opt =>
      a.requestNumber (a.status = .jdz ∧ a.curP = a.seatNum) opt
        (fun n => n = 0 ∨ n = 1) (fun n => n = 0 ∧ a.isMustOpt)
        (.zhuaPai a.seatNum)
  | .mldDaoLa opt =>
      a.requestNumber (a.status = .jiabei) opt (fun n => n = 0 ∨ n = 1)
        (fun n =>
          (a.curP = 4 ∧ a.dizhu = a.seatNum) ∨
            (a.curP < 4 ∧ a.dizhu ≠ a.seatNum) ∨ (a.isMustOpt ∧ n = 0))
        (.daoLa a.seatNum)

/-- The rest of a handler once the room has answered; `none` is the answer
`CALL_FAIL`.  The result of `PROTECT.ready` is then `nil`. -/
def replied (a : Agent) (request : Request) (answer : Option Int) :
    Agent × Option Int :=
  let a := { a with
    actFlag := false
    isMustOpt :=
      match request with
      | .mldDaoLa _ => if answer = some 0 then false else a.isMustOpt
      | _ => a.isMustOpt }
  (a, match request with
    | .ready => answer
    | _ => some (answer.getD 1000))

/-! ## Automatic play -/

def hintArgs (r : HintResult) : ChupaiArgs :=
  { type := r.type
    keyPai := r.pai
    cpList := if r.type = 0 then none else some r.cpList
    mergeCpList := r.mergeCpList.getD []
    laziNum := r.laziNum }

/-- `auto_cp`, the play when the time is over: a seat that must play plays its
smallest cards, one that is hosted answers the last play, any other passes.
`none` is a Lua error. -/
def autoCp (a : Agent) (isMust hosted : Bool) : Option ChupaiArgs :=
  let hint (pai : Finset Nat) (other : Option (Nat × List Nat)) :=
    (cpHint a.kaiguan other pai a.laiziNum.toNat a.laizi).map hintArgs
  if isMust then a.paiData.bind fun data => hint data.pai none
  else if hosted then
    (getRealChupaiPosByAct a.gameType a.actList).bind fun pos =>
      (a.actList[pos - 1]?).bind fun act =>
        a.paiData.bind fun data => hint data.pai (some (act.type, act.pai))
  else some { type := 0 }

end Agent

/-! ## The agents of a table -/

namespace Table

variable (kaiguan : Nat → Bool)

def newAgent (cfg : Config) (seat : Nat) : Agent :=
  { seatNum := seat, gameType := cfg.gameType, jdzType := cfg.jdzType
    kaiguan := kaiguan }

def inbox (t : Table) (seat : Nat) : List Msg :=
  (t.outbox.filter fun x => x.1 = seat).map Prod.snd

def agent (t : Table) (seat : Nat) : Agent :=
  (t.inbox seat).foldl Agent.receive (newAgent kaiguan t.cfg seat)

end Table

end JyQipai.Ddz
