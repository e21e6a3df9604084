import JyQipai.Ddz.Settlement
import JyQipai.Ddz.Shuffle

/-!
# The commands of a Dou Dizhu room

The command handlers of `common_ddz_nor_room_service.lua` and of
`nor_ddz_room_lib.lua`, and the step of the table for each event: a command, a
timer that has run out, or the answer to a call.  A handler runs without
interruption up to its next call.
-/

namespace JyQipai.Ddz

open JyQipai.Lib

namespace Table

/-! ## A new hand -/

@[simps cfg play outbox toCtrl toHand toMld toLobby toRaces toTrace]
def ageHistory (t : Table) : Table :=
  { t with
    played := ∅
    dzTaken := false
    origin := fun f => match t.origin f with
      | .unset => .unset
      | _ => .earlierHand }

@[simps! cfg play outbox toCtrl toHand toMld toLobby toRaces toTrace]
def resetHand (t : Table) : Table :=
  let er : Bool := t.cfg.gameType = .er
  let mld := t.cfg.isMld
  { ((t.ageHistory.write .isChuntian).writeIf er .rangpaiNum).writeIf mld
      .daoLaData with
    time := true
    play := {}
    pJdzRate := 0
    pRate := fun _ => t.cfg.initRate
    pCpCount := fun _ => 0
    sInfo := {}
    bombCount := 0
    pJiabei := fun _ => none
    pBombCount := fun _ => 0
    isChuntian := 0
    pJdz := fun _ => 0
    ready := fun _ => 0
    pReady := 0
    rangpaiNum := if er then some 1 else t.rangpaiNum
    qiangDzCount := if er then 0 else t.qiangDzCount
    isMenZhua := if mld then 0 else t.isMenZhua
    daoLaData := fun s => if mld then none else t.daoLaData s
    menData := fun s => if mld then none else t.menData s
    noZhuaCount := if mld then 0 else t.noZhuaCount
    pKanPai := fun s => if mld then false else t.pKanPai s }

def gameBegin (t : Table) : Table :=
  ((t.enter .gameBegin).sendAll fun _ => .begin t.curRace).wait .fp

def newGame (t : Table) (again : Bool) : Table :=
  let t := { t with
    reFapaiNum := if again then t.reFapaiNum + 1 else t.reFapaiNum
    curRace := if again then t.curRace else t.curRace + 1 }.resetHand
  if again then t.gameBegin
  else t.enter (if t.curRace = 1 then .waitP else .ready)

def newTable (cfg : Config) : Table :=
  newGame
    { cfg := cfg, pRate := fun _ => cfg.initRate, raceCount := cfg.raceCount }
    false

/-! ## Waiting for players -/

def join (t : Table) (id : Nat) (seat : Option Nat) : Reply :=
  if 2 < t.pCount ∨ t.status ≠ .waitP ∨ t.playersJoinFlag id then t.reply 1002
  else
    match seat.or (t.cfg.seatList.find? fun s => (t.pSeatNumber s).isNone) with
    | none => t.reply 1000
    | some seat =>
        let t := { t with
          playersJoinFlag := Function.update t.playersJoinFlag id true
          pSeatNumber := Function.update t.pSeatNumber seat (some id)
          pCount := t.pCount + 1 }
        (t.sendAll fun _ => .join seat (t.ready seat)).reply 0

def playerExitGame (t : Table) (seat : Nat) : Reply :=
  let t := t.sendAll fun _ => .playerExit seat
  match t.pSeatNumber seat with
  | none => t.raise
  | some id =>
      { t with
        playersJoinFlag := Function.update t.playersJoinFlag id false
        ready := Function.update t.ready seat 0
        pReady := t.pReady - 1
        pSeatNumber := Function.update t.pSeatNumber seat none
        pCount := t.pCount - 1 }.reply 0

def readyCmd (t : Table) (seat : Nat) : Reply :=
  if t.ready seat = 0 then
    let t := { t with ready := Function.update t.ready seat 1 }
    let t := t.sendAll fun _ => .readyMsg seat
    let t := { t with pReady := t.pReady + 1 }
    if t.pReady = t.cfg.seatCount then t.gameBegin.reply 0 else t.reply 0
  else t.reply 0

/-! ## Dealing -/

@[simps cfg play outbox toCtrl toHand toMld toLobby toRaces toTrace]
def getDzCandidate (t : Table) (rand : Nat) : Table :=
  let p := random (fun _ => rand) 0 1 t.cfg.seatCount
  { t with play := { t.play with dzCandidate := p, curP := p } }

def fapai (t : Table) (ρ : Nat → Nat) (rand : Nat) : Table :=
  let t := { t with play := norFapai (xipai t.cfg ρ) t.play 17 }
  let t := t.getDzCandidate rand
  if t.cfg.isMld then (t.sendAll fun _ => .pai none).later .mldMen
  else (t.sendAll fun s => .pai (some (t.play.pai s))).later .jdz

/-! ## The landlord -/

@[simps cfg play outbox toCtrl toHand toMld toLobby toRaces toTrace]
def fapaiDizhu (t : Table) (take : Bool) : Table :=
  let d := t.play.dizhu
  { t with
    play := { t.play with
      pai := Function.update t.play.pai d
        (t.play.pai d ∪ if take then (t.play.dzPai.take 3).toFinset else ∅)
      remainPai := Function.update t.play.remainPai d
        (if take then 20 else t.play.remainPai d) }
    dzTaken := t.dzTaken || take }

def libSetDizhu (t : Table) (dizhu : Nat) (notFaDizhuPai : Bool) : Table :=
  let t := t.mulRate (max (t.pJdz dizhu) 1)
  let t := { t with play := { t.play with dizhu := dizhu, curP := dizhu } }
  t.sumRate.fapaiDizhu !notFaDizhuPai

def nongminOf (seatCount dizhu : Nat) : List Nat :=
  let nm1 := if dizhu = 1 then 2 else 1
  let nm2 := if nm1 + 1 = dizhu then nm1 + 2 else nm1 + 1
  if seatCount = 3 then [nm1, nm2] else [nm1]

@[simps! cfg play outbox toCtrl toHand toMld toLobby toRaces toTrace]
def setNongmin (t : Table) (dizhu : Nat) : Table :=
  { t with nongmin := nongminOf t.cfg.seatCount dizhu }.write .nongmin

@[simps cfg play outbox toCtrl toHand toMld toLobby toRaces toTrace]
def setMenZhua (t : Table) (men : Option Nat) : Table :=
  { t with isMenZhua := if t.cfg.isMld then men.getD 0 else t.isMenZhua }

@[simps cfg play outbox toCtrl toHand toMld toLobby toRaces toTrace]
def addQiang (t : Table) : Table :=
  { t with pRate := fun s =>
      if t.cfg.gameType = .er ∧ s ∈ t.seats then t.pRate s + t.qiangDzCount
      else t.pRate s }

@[simps! cfg play outbox toCtrl toHand toMld toLobby toRaces toTrace]
def sendDizhu (t : Table) (men : Option Nat) : Table :=
  (t.read .rangpaiNum).sendAll fun s =>
    .dizhu t.play.dizhu t.play.dzPai (t.pRate s) t.rangpaiNum men

def setDizhu (t : Table) (dizhu : Nat) (men : Option Nat) : Table :=
  ((((t.libSetDizhu dizhu t.cfg.isMld).setNongmin dizhu).setMenZhua
    men).addQiang).sendDizhu men

def noDizhu (t : Table) : Table :=
  let t := { t with noDizhuCount := t.noDizhuCount + 1 }
  if 10 < t.noDizhuCount ∧ ¬ t.cfg.friendgame then
    { t with raceCount := 0 }.settlement 0
  else (t.sendAll fun _ => .startAgain).newGame true

/-! ## Bidding -/

def maxBid (actList : List Act) : Nat × Nat :=
  actList.reverse.foldl
    (fun m a => if m.1 < a.rate then (a.rate, a.p) else m) (0, 0)

@[simps! cfg play outbox toCtrl toHand toMld toLobby toRaces toTrace]
def addBid (t : Table) (p rate : Nat) : Table :=
  let t := t.addAct { type := OtherType.jdz, p := p, rate := rate }
  { t with
    pJdz := Function.update t.pJdz p rate
    pJdzRate := max t.pJdzRate rate }

def norJiaoDizhu (t : Table) (p rate : Nat) : Int × Table :=
  if p ≠ t.play.curP then (1002, t)
  else
    let m := maxBid t.play.actList
    if rate ≤ m.1 ∧ rate ≠ 0 then (1003, t)
    else
      let m := if rate ≠ 0 then (rate, p) else m
      let t := t.addBid p rate
      if rate = 3 then (p, t.setCurP 0)
      else
        let t := t.guo
        if t.play.curP = t.play.dzCandidate then
          (if 0 < m.1 then (m.2 : Int) else -1, t.setCurP 0)
        else (0, t)

def erJiaoDizhu (t : Table) (p rate : Nat) : Int × Table :=
  if p ≠ t.play.curP then (1002, t)
  else
    let rate := min rate 1
    let t := (t.addBid p rate).guo
    if rate = 1 then (p, t)
    else if t.play.curP = t.play.dzCandidate then (-1, t.setCurP 0)
    else (0, t)

def libJiaoDizhu (t : Table) (p rate : Nat) : Int × Table :=
  if t.cfg.gameType = .er then t.erJiaoDizhu p rate else t.norJiaoDizhu p rate

def lastAct (t : Table) : Act := t.play.actList.getLastD { type := 0, p := 0 }

@[simps! cfg play outbox toCtrl toHand toMld toLobby toRaces toTrace]
def readyChupai (t : Table) : Table := t.setCurP t.play.dizhu

def afterBidding (t : Table) : Table :=
  if t.cfg.jiaBei then t.wait .jiabei
  else if t.cfg.gameType = .lz then t.wait .createLz
  else t.readyChupai.wait .cp

def jiaoDizhu (t : Table) (seat rate : Nat) : Reply :=
  if t.status ≠ .jdz then t.reply 1002
  else
    match t.libJiaoDizhu seat rate with
    | (status, t) =>
        if 999 < status then t.reply status
        else
          let t := t.sendAll fun _ => .jdz t.lastAct
          if status = -1 then t.noDizhu.reply 0
          else if 0 < status then
            if t.cfg.gameType = .er then
              if t.play.curP = t.play.dzCandidate then
                let dizhu := if t.play.curP = 1 then 2 else 1
                ((t.setDizhu dizhu none).wait .cp).reply 0
              else (t.wait .erQiangdizhu).reply 0
            else ((t.setDizhu status.toNat none).afterBidding).reply 0
          else (t.wait .jdz).reply status

def libErQiangDizhu (t : Table) (p rate : Nat) : Nat × Table :=
  let t := t.addAct { type := OtherType.erQdz, p := p, rate := rate }
  if rate = 1 then
    let t := { t with qiangDzCount := t.qiangDzCount + 1 }
    let first : Bool := t.qiangDzCount = 1
    let t : Table :=
      { (t.readIf (!first) .rangpaiNum).write .rangpaiNum with
        rangpaiNum := if first then some 2 else t.rangpaiNum.map (· + 1) }
    if t.qiangDzCount = 2 then (t.play.curP, t) else (0, t.guo)
  else (if t.play.curP = 1 then 2 else 1, t)

def erQiangDizhu (t : Table) (seat rate : Nat) : Reply :=
  if t.status ≠ .erQiangdizhu then t.reply 1002
  else
    match t.libErQiangDizhu seat rate with
    | (status, t) =>
        let t := t.sendAll fun _ => .erQdz t.lastAct
        if 0 < status then ((t.setDizhu status none).wait .cp).reply 0
        else (t.wait .erQiangdizhu).reply 0

def jiabeiCount (actList : List Act) : Nat :=
  (actList.reverse.takeWhile fun a => a.type = OtherType.jiabei).length

def jiabeiRate (t : Table) (p rate : Nat) : Nat → Nat :=
  let d := t.play.dizhu
  if rate = 0 then t.pRate
  else if d = p then
    fun s => if 1 ≤ s ∧ s ≤ 3 then t.pRate s * rate else t.pRate s
  else
    let r := Function.update t.pRate p (t.pRate p * rate)
    Function.update r d (r d + r p - t.pRate p)

def libJiabei (t : Table) (p rate : Nat) : Bool × Table :=
  let t := t.addAct { type := OtherType.jiabei, p := p, rate := rate }
  let t := { t with pRate := t.jiabeiRate p rate }
  (jiabeiCount t.play.actList = 3, t)

def jiabei (t : Table) (seat rate : Nat) : Reply :=
  if t.status ≠ .jiabei ∨ (t.pJiabei seat).isSome then t.reply 1002
  else
    match t.libJiabei seat rate with
    | (all, t) =>
        let t := { t with pJiabei := Function.update t.pJiabei seat (some rate) }
        let t := t.sendIf true seat (.myJiabei t.lastAct)
        if all then
          let acts := t.play.actList.drop (t.play.actList.length - 3)
          let t := t.sendAll fun s => .jiabei acts (t.pRate s)
          if t.cfg.gameType = .lz then (t.wait .createLz).reply 0
          else (t.readyChupai.wait .cp).reply 0
        else t.reply 0

/-! ## Blind bidding -/

@[simps cfg play outbox toCtrl toHand toMld toLobby toRaces toTrace]
def kanMyPai (t : Table) (seat : Nat) : Table :=
  { t.sendIf (!t.pKanPai seat) seat (.mldKanMyPai (t.play.pai seat)) with
    pKanPai := Function.update t.pKanPai seat true }

def startCp (t : Table) : Table :=
  let t := ((t.kanMyPai 1).kanMyPai 2).kanMyPai 3
  let t := t.fapaiDizhu true
  let t := t.sendAll fun s => .mldDizhuPai
    (if ((t.pSeatNumber s).all t.cfg.isReal = false) ∨ t.isMenZhua < 1 ∨
        s = t.play.dizhu then some t.play.dzPai
     else none)
  (t.setCurP t.play.dizhu).wait .cp

@[simps! cfg play outbox toCtrl toHand toMld toLobby toRaces toTrace]
def addMldAct (t : Table) (type seat : Nat) (msg : Act → Msg) : Table :=
  let act (rate : Nat) : Act := { type := type, p := seat, rate := rate }
  (t.addAct (act (t.lastRate seat))).sendAll fun s => msg (act (t.pRate s))

def men (t : Table) (seat opt : Nat) : Reply :=
  if t.status ≠ .mldMen ∨ t.play.curP ≠ seat then t.reply 1002
  else if t.isMustMen ∧ opt < 1 then t.reply 1002
  else if 0 < opt then
    let t := { t with pRate := fun s =>
      if s ∈ t.seats then t.pRate s * (if s = seat then 4 else 2) else t.pRate s }
    let t := { t with menData := Function.update t.menData seat (some 1) }
    let t := t.addMldAct OtherType.mldMen seat .mldMen
    let t := t.setDizhu seat (some 1)
    if t.isMustMen then { t.startCp with isMustMen := false }.reply 0
    else (t.wait .mldJb).reply 0
  else if (t.menData seat).isSome then t.reply 1002
  else
    let t := t.addAct { type := OtherType.mldKp, p := seat }
    let t := t.sendAll fun _ => .mldKan t.lastAct
    let t := { t with menData := Function.update t.menData seat (some 0) }
    ((t.kanMyPai seat).wait .mldMen).reply 0

def zhuaPai (t : Table) (seat opt : Nat) : Reply :=
  if t.status ≠ .mldMen ∨ t.play.curP ≠ seat then t.reply 1002
  else if 0 < opt then
    let t := { t with pRate := Function.update t.pRate seat (t.pRate seat * 2) }
    let t := t.addMldAct OtherType.mldZhua seat .mldZp
    let t := t.setDizhu seat (some 0)
    let t := ((t.kanMyPai 1).kanMyPai 2).kanMyPai 3
    (t.wait .mldJb).reply 0
  else
    let t := t.addMldAct OtherType.mldBz seat .mldZp
    let t := { t with noZhuaCount := t.noZhuaCount + 1 }
    let t := t.setCurP (if 3 < t.play.curP + 1 then 1 else t.play.curP + 1)
    (t.wait .mldMen).reply 0

def sumNongmin (t : Table) (r : Nat → Nat) : Nat → Nat :=
  Function.update r t.play.dizhu (r t.nm1 + r t.nm2)

@[simps cfg play outbox toCtrl toHand toMld toLobby toRaces toTrace]
def daoRate (t : Table) (seat opt : Nat) : Table :=
  { t.readIf (0 < opt) .nongmin with
    pRate :=
      if 0 < opt then
        t.sumNongmin (Function.update t.pRate seat (t.pRate seat * 2))
      else t.pRate }

def daoSeats (t : Table) : List Nat :=
  t.seats.filter fun s => (t.daoLaData s).isSome

def dao (t : Table) (seat opt : Nat) : Reply :=
  if (t.menData seat).isSome ∧ opt = 1 then t.reply 1002
  else
    let t := t.daoRate seat opt
    let t := t.addMldAct (if 0 < opt then OtherType.mldDao else OtherType.mldBd)
      seat .mldDao
    let t := { t with daoLaData := Function.update t.daoLaData seat (some opt) }
    if 1 < t.daoSeats.length then
      if t.daoSeats.any fun s => (t.daoLaData s).any (0 < ·) then
        (t.wait .mldJb).reply 0
      else t.startCp.reply 0
    else t.reply 0

def laRate (t : Table) (seat : Nat) : Option Table :=
  (t.daoLaData seat).map fun opt => t.setRate (Function.update t.pRate seat
    (if 0 < opt then t.pRate seat * 2 else t.pRate seat))

def laEnd (t : Table) (seat opt : Nat) : Reply :=
  let t := t.addMldAct (if 0 < opt then OtherType.mldLa else OtherType.mldBl)
    seat .mldLa
  let t := { t with daoLaData := Function.update t.daoLaData seat (some opt) }
  t.startCp.reply 0

def la (t : Table) (seat opt : Nat) : Reply :=
  if 0 < opt then
    let t := t.read .nongmin
    match t.laRate t.nm1 with
    | none => t.raise
    | some t =>
        match t.laRate t.nm2 with
        | none => t.raise
        | some t => (t.setRate (t.sumNongmin t.pRate)).laEnd seat opt
  else t.laEnd seat opt

def daoLa (t : Table) (seat opt : Nat) : Reply :=
  if t.status ≠ .mldJb then t.reply 1002
  else
    let t := t.read .daoLaData
    if (t.daoLaData seat).isSome then t.reply 1002
    else if (t.play.curP = 4 ∧ seat = t.play.dizhu) ∨
        (t.play.curP = t.play.dizhu ∧ seat ≠ t.play.dizhu) then t.reply 1002
    else if t.play.curP = t.play.dizhu then t.la seat opt
    else t.dao seat opt

def mldMenPermit (t : Table) : Table :=
  let t := { t.enter .mldMen with isMustMen := t.isMustMen || 1 < t.noZhuaCount }
  t.sendAll fun _ => .mldJdzPermit t.play.curP t.isMustMen

def mldJbPermit (t : Table) : Table :=
  let t := (t.enter .mldJb).read .daoLaData
  let none? := [1, 2, 3].all fun s => (t.daoLaData s).isNone
  let t := t.setCurP (if none? then 4 else t.play.dizhu)
  t.sendAll fun _ => .mldJiabeiPermit t.play.curP

/-! ## Playing cards -/

/-- The arguments of the command `chupai`. -/
structure ChupaiArgs where
  type : Nat
  keyPai : List Nat := []
  cpList : Option CpList := none
  mergeCpList : List Nat := []
  laziNum : Nat := 0
  deriving DecidableEq, Repr

def ChupaiArgs.act (a : ChupaiArgs) (p : Nat) : Act :=
  { type := a.type, p := p, pai := a.keyPai, laziNum := a.laziNum
    cpList := a.cpList, mergeCpList := a.mergeCpList }

/-- The cards of a seat after a play, and whether `deduct_pai_by_cp_list`
returned. -/
def deduct (t : Table) (p : Nat) (a : ChupaiArgs) : Table × Bool :=
  let r := deductPaiByCpList { pai := t.play.pai p } a.cpList t.laizi
  ({ t.read .laizi with
     play := { t.play with pai := Function.update t.play.pai p r.1.pai }
     played := t.played ∪ (a.cpList.getD {}).norIds.toFinset ∪
       (t.play.pai p \ r.1.pai) }, r.2)

def isOut (t : Table) (p : Nat) : Bool :=
  if t.cfg.gameType = .er ∧ p ≠ t.play.dizhu then
    t.play.remainPai p ≤ (t.rangpaiNum.getD 0 : Nat)
  else t.play.remainPai p = 0

def libChupai (t : Table) (p : Nat) (a : ChupaiArgs) : Reply :=
  match checkChupaiSafe t.cfg.gameType t.play.actList a.type a.keyPai with
  | none => t.raise
  | some false => t.reply 1003
  | some true =>
      let t := t.addAct (a.act p)
      if a.type = 0 then t.guo.reply 0
      else
        match t.deduct p a with
        | (t, false) => t.raise
        | (t, true) =>
            let remain := t.play.remainPai p - a.mergeCpList.length
            let t := { t with play := { t.play with
              remainPai := Function.update t.play.remainPai p remain } }
            let t := t.readIf (t.cfg.gameType = .er) .rangpaiNum
            if t.isOut p then t.reply 1 else t.guo.reply 0

@[simps cfg play outbox toCtrl toHand toMld toLobby toRaces toTrace]
def countPlay (t : Table) (seat type : Nat) : Table :=
  let bomb : Bool := type = 13 ∨ type = 14 ∨ type = 15
  { t.mulRate (if bomb then 2 else 1) with
    bombCount := if bomb then t.bombCount + 1 else t.bombCount
    pBombCount := Function.update t.pBombCount seat
      (if bomb then t.pBombCount seat + 1 else t.pBombCount seat)
    pCpCount := Function.update t.pCpCount seat
      (if type ≠ 0 then t.pCpCount seat + 1 else t.pCpCount seat) }

def chupai (t : Table) (seat : Nat) (a : ChupaiArgs) : Reply :=
  if t.status ≠ .cp ∨ t.play.curP ≠ seat then t.reply 1002
  else
    match t.libChupai seat a with
    | ⟨none, t⟩ => t.raise
    | ⟨some status, t⟩ =>
        if status = 1 ∨ status = 0 then
          let t := t.countPlay seat a.type
          let t := t.sendAll fun _ => .cp t.lastAct (t.pRate seat)
          if status = 1 then (t.settlement seat).reply 0
          else (t.wait .cp).reply 0
        else t.reply status

def chupaiPermit (t : Table) : Table :=
  (t.enter .cp).sendAll fun _ => .cpPermit t.play.curP
    (isMustChupai t.cfg.gameType t.play.actList)

def createLz (t : Table) (rand : Nat) : Table :=
  let lz := random (fun _ => rand) 0 3 15
  let t := { t.enter .createLz with laizi := some lz }.write .laizi
  ((t.sendAll fun _ => .laizi lz).readyChupai).wait .cp

def auto (t : Table) (seat type : Nat) : Reply :=
  let t := { t with pAuto := Function.update t.pAuto seat (some type) }
  (t.sendAll fun _ => .auto seat type).reply 0

/-! ## The end of a hand -/

def nextGame (t : Table) : Table :=
  if t.curRace < t.raceCount ∧ ¬ t.isBreakGame then t.newGame false
  else t.later .gameover

def settlementFinish (F : NumFormat) (t : Table) (answer : Nat → Int → Int) :
    Table :=
  let t := t.readIf (t.sInfo.winner = 4 ∨ t.sInfo.winner = 5) .nongmin
  let t := { t with sInfo := (t.calculateScore F answer).1 }
  let t := t.read .isChuntian
  let isOver : Bool := t.raceCount = t.curRace ∨ t.isBreakGame
  (t.sendAll fun _ => .settlement t.isChuntian isOver).nextGame

def gameover (t : Table) : Table :=
  { (t.enter .gameover).sendAll fun _ => .gameover with gone := true }

def gamecancel (t : Table) : Table :=
  { (t.enter .gamecancel).sendAll fun _ => .gamecancel with gone := true }

def cancelGame (t : Table) : Reply :=
  if t.status ≠ .waitP then t.reply 1002 else t.gamecancel.reply 0

def breakGame (t : Table) : Reply :=
  if t.status = .gameover then t.reply 1002
  else
    let t := { t with isBreakGame := true }
    if t.status = .ready then t.gameover.reply 0
    else if t.status ≠ .settlement then (t.settlement 0).reply 0
    else t.reply 0

def overTimeCancelGame (t : Table) : Reply :=
  if t.status = .waitP then t.cancelGame else t.breakGame

/-! ## Steps -/

def changeStatus (t : Table) (rand : Nat) : Status → Table
  | .gameBegin => t.gameBegin
  | .fp => { t.enter .fp with updating := some .fapai }
  | .jdz => (t.enter .jdz).sendAll fun _ => .jdzPermit t.play.curP
  | .mldMen => t.mldMenPermit
  | .mldJb => t.mldJbPermit
  | .jiabei =>
      ((t.enter .jiabei).setCurP 6).sendAll fun _ => .jiabeiPermit 6
  | .erQiangdizhu =>
      (t.enter .erQiangdizhu).sendAll fun _ => .erQdzPermit t.play.curP
  | .createLz => t.createLz rand
  | .cp => t.chupaiPermit
  | .settlement => { t.enter .settlement with updating := some .score }
  | .gameover => t.gameover
  | .gamecancel => t.gamecancel
  | status => t.enter status

/-- One round of `update` for a table whose timer has run out.  The loop waits
while it is inside `fapai` or `settlement_finish`. -/
def update (t : Table) (rand : Nat) : Table :=
  if t.time ∧ t.updating = none then
    let t := { t with time := false }
    match t.nextStatus with
    | none => t
    | some status => t.changeStatus rand status
  else t

end Table

open Table (ChupaiArgs)

inductive Event where
  | join (id : Nat) (seat : Option Nat)
  | playerExitGame (seat : Nat)
  | ready (seat : Nat)
  | jiaoDizhu (seat rate : Nat)
  | jiabei (seat rate : Nat)
  | men (seat opt : Nat)
  | zhuaPai (seat opt : Nat)
  | daoLa (seat opt : Nat)
  | erQiangDizhu (seat rate : Nat)
  | chupai (seat : Nat) (args : ChupaiArgs)
  | auto (seat type : Nat)
  | cancelGame
  | breakGame
  | overTimeCancelGame
  /-- The timer of the table runs out. -/
  | update (rand : Nat)
  /-- `fapai` goes on, with the random numbers it draws. -/
  | fapaiAnswer (ρ : Nat → Nat) (rand : Nat)
  /-- A pending call of `settlement` is answered. -/
  | capAnswer (call : Pending) (answer : Int)
  /-- `settlement_finish` has got the answers of the agents. -/
  | scoreAnswer (answer : Nat → Int → Int)

namespace Table

variable (F : NumFormat)

def handle (t : Table) : Event → Reply
  | .join id seat => t.join id seat
  | .playerExitGame seat => t.playerExitGame seat
  | .ready seat => t.readyCmd seat
  | .jiaoDizhu seat rate => t.jiaoDizhu seat rate
  | .jiabei seat rate => t.jiabei seat rate
  | .men seat opt => t.men seat opt
  | .zhuaPai seat opt => t.zhuaPai seat opt
  | .daoLa seat opt => t.daoLa seat opt
  | .erQiangDizhu seat rate => t.erQiangDizhu seat rate
  | .chupai seat args => t.chupai seat args
  | .auto seat type => t.auto seat type
  | .cancelGame => t.cancelGame
  | .breakGame => t.breakGame
  | .overTimeCancelGame => t.overTimeCancelGame
  | .update rand => (t.update rand).reply 0
  | .fapaiAnswer ρ rand =>
      if t.updating = some .fapai then
        ({ t with updating := none }.fapai ρ rand).reply 0
      else t.reply 0
  | .capAnswer call answer =>
      if call ∈ t.pending then
        ({ t with pending := t.pending.erase call }.resumeSettlement answer
          call).reply 0
      else t.reply 0
  | .scoreAnswer answer =>
      if t.updating = some .score then
        (settlementFinish F { t with updating := none } answer).reply 0
      else t.reply 0

def step (t : Table) (e : Event) : Table :=
  if t.gone then t else (t.handle F e).table

end Table

end JyQipai.Ddz
