import JyQipai.Mj.Score

/-!
# The commands of a Mahjong room

The status functions and command handlers of
`common_mj_xzdd_room_service.lua`.  A status function that ends in
`change_status` goes on with the function of the new status; the settlement and
the end of a game are the only ones that call other services.
-/

namespace JyQipai.Mj

open JyQipai.Lib

namespace Table

variable (F : NumFormat)

/-! ## The start of a hand -/

def newTable (cfg : Config) (ρ : Nat → Nat) : Table :=
  newGame { cfg := cfg, rand := ρ }

def statusGameBegin (t : Table) : Table := (t.enter .gameBegin).wait .touSezi

def statusTouSezi (t : Table) : Table :=
  { t.enter .touSezi with
    zhuangSeat :=
      (random t.rand 0 1 6 + random t.rand 1 1 6) % t.cfg.seatCount + 1 }

def popPai (t : Table) : Option Nat × Table :=
  if t.paiEmpty then (none, t)
  else
    match t.paiPool with
    | [] => (none, t)
    | pai :: pool => (some pai, { t with paiPool := pool, paiEmpty := pool = [] })

def gain (t : Table) (s pai : Nat) : Table :=
  t.setSeat s fun d => { d with pai := d.pai.add pai }

def give (t : Table) (s : Nat) : Table :=
  match t.paiPool with
  | [] => t
  | pai :: pool => { t with paiPool := pool }.gain s pai

def rounds (n : Nat) : List Nat :=
  List.replicate (n / 4) 4 ++ if n % 4 = 0 then [] else [n % 4]

def fapaiNor (t : Table) : Table :=
  let t := (rounds t.cfg.gameType.paiNum).foldl
    (fun t n => t.cfg.seatList.foldl
      (fun t s => (List.range n).foldl (fun t _ => t.give s) t) t) t
  match t.popPai with
  | (none, t) => t
  | (some pai, t) => t.gain t.zhuangSeat pai

def statusHuanPaiFinish (t : Table) : Table :=
  if t.cfg.gameType = .xzdd then t.wait .dingQue
  else { t with pDingQue := fun s =>
      if s ∈ t.seats then some 3 else t.pDingQue s }.wait .start

def statusDaPiaoFinish (t : Table) : Table :=
  if t.cfg.huanSanZhang then t.wait .huanPai else t.statusHuanPaiFinish

def statusFapai (t : Table) : Table :=
  let t := (t.enter .fapai).fapaiNor
  if t.cfg.daPiao then t.wait .daPiao else t.statusDaPiaoFinish

/-- `status_ding_que`, `status_huan_pai` and `status_da_piao`: every seat may
act. -/
def permitAll (t : Table) (status : Status) : Table :=
  { t.enter status with pActionDone := fun s => s ∈ [1, 2, 3, 4] }

def startCp (t : Table) : M Unit :=
  let t := t.enter .start
  let p := t.zhuangSeat
  let t := { t with curP := p }
  match t.cfg.algo.getHupaiAllInfo (t.seat p).pai (t.seat p).pgType
      (t.pDingQue p) t.actionList p p 0 0 t.paiCount with
  | none => .raised t
  | some hu => .done ((t.setDone p true).setPermit p { cp := true, hu := hu }) ()

/-! ## Drawing and passing on -/

def statusChuPai (t : Table) : Table :=
  let t := { t.enter .cp with curChupai := none }
  (t.setDone t.curP true).setPermit t.curP { cp := true }

def draw (t : Table) : Option Nat × Table :=
  let t := { t with pIgnoreHu := Function.update t.pIgnoreHu t.curP none }
  let r := t.popPai
  let t := r.2.setSeat t.curP fun d => { d with moPai := r.1 }
  let t := { t with lastGangSeat :=
    if t.lastGangSeat = some t.curP then t.lastGangSeat else none }
  (r.1, t)

def drawn (t : Table) (pai : Nat) : Table :=
  let p := t.curP
  let t := t.gain p pai
  let t := { t with
    pMopaiCount := Function.update t.pMopaiCount p (t.pMopaiCount p + 1) }
  let t := t.addAct { type := .moPai, p := p, pai := pai }
  (t.setDone p true).setPermit p { cp := true, hu := t.hupai p }

def settle (t : Table) : M Unit := statusSettlement F (t.enter .settlement)

def statusMoPai (t : Table) : M Unit :=
  let t := t.enter .moPai
  if t.paiEmpty then settle F t
  else
    let isOver : Bool := t.cfg.seatCount ≤ t.huNum + t.bankruptNum + 1
    let t := t.noteCheck isOver
    if isOver then settle F t
    else
      match t.draw with
      | (none, t) => settle F t
      | (some pai, t) => .done (t.drawn pai) ()

def dealGuo (t : Table) : M Unit :=
  match t.actionList.getLast? with
  | none => .raised t
  | some act =>
      let t := t.setPermit act.p {}
      match (t.seatsAfter act.p).find? fun s => (t.huOrder s).isNone with
      | none => .raised { t with hung := true }
      | some s => statusMoPai F { t with curP := s }

/-! ## Discards -/

def getPgh (t : Table) (s pai : Nat) : Option Permit :=
  let hu := t.hupai s
  let open_ : Bool := some (flower pai) ≠ t.pDingQue s
  let n := (t.seat s).pai.num pai
  let peng : Bool := open_ ∧ 1 < n
  let gang : Bool := open_ ∧ 2 < n ∧ 0 < t.paiCount
  if hu.isSome ∨ peng ∨ gang then some { hu := hu, peng := peng, gang := gang }
  else none

/-- The permission of a seat for a discard: a win that it has let pass is not
offered again, unless it is worth more. -/
def cpPermit (t : Table) (s pai : Nat) : Option Permit :=
  match t.getPgh s pai with
  | none => none
  | some p =>
      let ignored : Bool :=
        match p.hu, t.pIgnoreHu s with
        | some hu, some (pai', mul) => pai' = some pai ∧ hu.mul ≤ mul
        | _, _ => false
      let p := if ignored then { p with hu := none } else p
      if p.hu.isSome ∨ p.peng ∨ p.gang then some { p with guo := true } else none

def claims (t : Table) (seat pai : Nat) : List (Nat × Permit) :=
  t.onLine.filterMap fun s =>
    if s = seat ∨ (t.huOrder s).isSome then none
    else (t.cpPermit s pai).map fun p => (s, p)

def offer (t : Table) (cs : List (Nat × Permit)) : Table :=
  { t with
    pPermit := fun s => (cs.lookup s).or (t.pPermit s)
    pActionDone := fun s => t.pActionDone s || (cs.lookup s).isSome
    pPermitPghCount := cs.length
    pPermitHCount := (cs.filter fun c => c.2.hu.isSome).length
    status := if cs = [] then t.status else .pengGangHu }

def setZhuanYu (t : Table) (seat : Nat) : Table :=
  { t with zhuanYuSeat :=
      if t.lastGangSeat = some seat ∧ t.pPermitHCount = 1 then some seat
      else none }

def dealChuPai (t : Table) (seat pai : Nat) : M Unit :=
  let t := (t.offer (t.claims seat pai)).setZhuanYu seat
  if t.pPermitPghCount < 1 then dealGuo F t else .done t ()

def discard (t : Table) (seat pai : Nat) (n : Int) : Table :=
  let t := t.setSeat seat fun d =>
    { d with pai := Function.update d.pai pai (some (n - 1)) }
  let t := { t with
    curChupai := some (seat, pai)
    lastGangSeat := if t.lastGangSeat = some seat then t.lastGangSeat else none
    pCpCount := Function.update t.pCpCount seat (t.pCpCount seat + 1) }
  t.addAct { type := .cp, p := seat, pai := pai }

/-! ## Melds -/

def movePai (t : Table) (s pai : Nat) (type : PgType) (n : Int) : Table :=
  let count : Int := match type with
    | .peng => 2
    | .ag => 4
    | .zg => 3
    | .wg => 1
  t.setSeat s fun d => { d with
    pai := Function.update d.pai pai (some (n - count))
    pgType := Function.update d.pgType pai (some type)
    pgPai := Function.update d.pgPai pai (if type = .peng then 3 else 4)
    pgVec := if type = .wg then d.pgVec else d.pgVec ++ [pai] }

def movePaiForPg (t : Table) (s pai : Nat) (type : PgType) (k : Table → M α) : M α :=
  match (t.seat s).pai pai with
  | none => .raised t
  | some n => k (t.movePai s pai type n)

def dealPengPai (t : Table) (act : Act) : M Unit :=
  t.movePaiForPg act.p act.pai .peng fun t =>
    .done ({ (t.setPermit act.p {}).addAct act with curP := act.p }.statusChuPai) ()

def gangDone (t : Table) (act : Act) (type : PgType) : M Unit :=
  t.movePaiForPg act.p act.pai type fun t =>
    let t := { t.addAct act with pPermit := fun _ => none }
    statusMoPai F { t.dealGameBankrupt with curP := act.p }

/-- `deal_gang`: a kong from the hand (`ag`), paid by all, or of a discard (`zg`),
paid by its seat. -/
def dealGang (t : Table) (race : Nat) (act : Act) (type : PgType) : M Unit :=
  if type = .zg then
    match t.curChupai with
    | none => .raised t
    | some (p, _) =>
        t.recordGangScore F race act.p type act.pai [p] fun t => gangDone F t act type
  else
    t.recordGangScore F race act.p type act.pai (t.getSeatOthers act.p) fun t =>
      gangDone F t act type

def dealWGangFinish (t : Table) (race : Nat) (act : Act) : M Unit :=
  let mo (t : Table) : M Unit := statusMoPai F { t with curP := act.p }
  if act.jwg then mo t
  else t.recordGangScore F race act.p .wg act.pai (t.getSeatOthers act.p) mo

/-- The seats that may rob an added kong.  The source compares the seat with the
number of the table. -/
def robbers (t : Table) : List (Nat × HuInfo) :=
  t.onLine.filterMap fun s =>
    if (t.huOrder s).isSome ∨ s = t.cfg.tNum then none
    else (t.hupai s).map fun hu => (s, hu)

def offerRob (t : Table) : Table :=
  let rs := t.robbers
  { t with
    pPermit := fun s =>
      ((rs.lookup s).map fun hu => { guo := true, hu := some hu }).or (t.pPermit s)
    pActionDone := fun s => t.pActionDone s || (rs.lookup s).isSome
    qghPermitCount := rs.length }

def wGangMoved (t : Table) (act : Act) : Table :=
  { t.addAct act with pPermit := fun _ => none }

def dealWGang (t : Table) (race : Nat) (act : Act) : M Unit :=
  t.movePaiForPg act.p act.pai .wg fun t =>
    let t := (t.wGangMoved act).offerRob
    if t.qghPermitCount < 1 then dealWGangFinish F t race act
    else .done { t with curWanGang := some act, status := .qiangGangHu } ()

/-! ## Wins -/

def huOthers (t : Table) (a : HuAct) : List Nat :=
  match a.huType with
  | .zimo | .tianHu => t.active.filter fun s => s ≠ a.p
  | .pao | .qghu => a.info.dianpaoP.toList

def HuAct.act (a : HuAct) : Act :=
  { type := .hu ⟨a.huType, a.info.huPai, a.info.dianpaoP⟩, p := a.p }

def win (t : Table) (a : HuAct) : Table :=
  let t := { t with
    huNum := t.huNum + 1
    huOrder := Function.update t.huOrder a.p (some (t.huNum + 1)) }
  match a.huType, a.info.huPai with
  | .pao, some pai | .qghu, some pai => t.gain a.p pai
  | _, _ => t

def setHu (t : Table) (a : HuAct) : Table :=
  { t with sInfo := Function.update t.sInfo a.p { t.sInfo a.p with
      huType := some a.huType
      total := a.info.total } }

/-- The loop of `deal_hu`: each seat in turn, starting after the seat of the
tile.  `next_oper_seat` raises an error if it has found no seat before. -/
def dealHuLoop (race : Nat) (actions : Nat → Option HuAct) (k : Table → M Unit) :
    Nat → Option Nat → Table → M Unit
  | 0, _, t => k t
  | _ + 1, none, t => .raised t
  | n + 1, some s, t =>
      match actions s with
      | none => dealHuLoop race actions k n (t.nextOperSeat s) t
      | some a =>
          let others := (t.win a).huOthers a
          dealChangeScore F (t.win a) race a.p a.info.total others (.hu a.huType)
            fun _ _ t =>
              let t := (t.setHu a).addAct (HuAct.act a)
              dealHuLoop race actions k n (t.nextOperSeat s) t

def dealHu (t : Table) (race : Nat) (actions : Nat → Option HuAct) : M Unit :=
  match t.cfg.seatList.findSome? actions with
  | none => .raised t
  | some a =>
      let first := match a.info.dianpaoP with
        | some p => t.nextOperSeat p
        | none => some a.p
      dealHuLoop F race actions
        (fun t =>
          let broke := t.brokeSeats.length
          let t := t.dealGameBankrupt
          let isOver : Bool := t.cfg.seatCount ≤ t.huNum + broke + 1
          let t := t.noteCheck isOver
          if isOver then settle F t else dealGuo F t)
        t.cfg.seatCount first t

/-! ## Claims -/

def unGang (t : Table) (act : Act) : Table :=
  let t := { t with actionList := t.actionList.map fun a =>
    if a = act then { a with type := .pg .peng } else a }
  t.setSeat act.p fun d => { d with
    pgType := Function.update d.pgType act.pai (some .peng)
    pgPai := Function.update d.pgPai act.pai 3 }

/-- The answer to a robbery is noted; `hu` is the win, if it is one. -/
def noteRob (t : Table) (p : Nat) (hu : Option HuAct) : Table :=
  { t with
    qghPermitCount := t.qghPermitCount - 1
    qghManagerWaitHu :=
      if hu.isSome then Function.update t.qghManagerWaitHu p hu
      else t.qghManagerWaitHu }

def qiangGangHuManager (t : Table) (race p : Nat) (hu : Option HuAct) : M Unit :=
  let t := t.noteRob p hu
  if t.qghPermitCount = 0 then
    match t.curWanGang with
    | none => .raised t
    | some act =>
        let run :=
          if t.cfg.seatList.any fun s => (t.qghManagerWaitHu s).isSome then
            dealHu F (t.unGang act) race t.qghManagerWaitHu
          else dealWGangFinish F t race act
        run.bind fun _ t =>
          .done { t with curWanGang := none, qghManagerWaitHu := fun _ => none } ()
  else .done t ()

inductive Claim where
  | hu (a : HuAct)
  | pg (act : Act)
  | guo (p : Nat)

def noteClaim (t : Table) : Claim → Table
  | .hu a =>
      let h := t.pPermitHCount - 1
      { t with
        waitHuActions := Function.update t.waitHuActions a.p (some a)
        pPermitHCount := h
        pPermitPghCount := if h = 0 then 0 else t.pPermitPghCount - 1 }
  | .pg act =>
      { t with
        waitPgAction := some act
        pPermitPghCount := t.pPermitPghCount - 1 }
  | .guo _ => { t with pPermitPghCount := t.pPermitPghCount - 1 }

def pengGangHuManager (t : Table) (race : Nat) (c : Claim) : M Unit :=
  let t := t.noteClaim c
  if t.pPermitPghCount = 0 then
    let run :=
      if t.cfg.seatList.any fun s => (t.waitHuActions s).isSome then
        dealHu F t race t.waitHuActions
      else
        match t.waitPgAction with
        | some act =>
            if act.type = .pg .peng then t.dealPengPai act
            else
              match act.type with
              | .pg type => dealGang F t race act type
              | _ => .raised t
        | none => dealGuo F t
    run.bind fun _ t =>
      .done { t with waitHuActions := fun _ => none, waitPgAction := none } ()
  else .done t ()

/-! ## Commands of the players -/

def refuse (t : Table) (code : Int) : M Int := .done t code

def mayDo (t : Table) (statuses : List Status) (seat : Nat) : Bool :=
  t.status ∈ statuses ∧ t.pActionDone seat

def chuPai (t : Table) (seat pai : Nat) : M Int :=
  if t.mayDo [.start, .cp, .moPai] seat then
    let t := t.setDone seat false
    match (t.seat seat).pai pai with
    | none =>
        .raised { t with
          lastGangSeat := if t.lastGangSeat = some seat then t.lastGangSeat else none
          curChupai := some (seat, pai) }
    | some n =>
        let t := (t.discard seat pai n).enter .cpFinish
        (dealChuPai F t seat pai).bind fun _ t => .done t 0
  else t.refuse 1002

def guoPai (t : Table) (seat : Nat) : M Int :=
  if t.mayDo [.pengGangHu, .qiangGangHu] seat then
    let t := t.setDone seat false
    match t.pPermit seat with
    | none => .raised t
    | some p =>
        let ignore := p.hu.filter fun hu => hu.dianpaoP.isSome ∧ ¬ hu.qiangganghu
        let t : Table := { t with pIgnoreHu := match ignore with
          | none => t.pIgnoreHu
          | some hu => Function.update t.pIgnoreHu seat (some (hu.huPai, hu.mul)) }
        let run : M Unit :=
          if t.status = .qiangGangHu then t.qiangGangHuManager F t.curRace seat none
          else t.pengGangHuManager F t.curRace (.guo seat)
        run.bind fun _ t => .done t 0
  else t.refuse 1002

def pengPai (t : Table) (seat pai : Nat) : M Int :=
  if t.mayDo [.pengGangHu] seat then
    let t := { t.setDone seat false with
      pIgnoreHu := Function.update t.pIgnoreHu seat none }
    (t.pengGangHuManager F t.curRace
      (.pg { type := .pg .peng, p := seat, pai := pai })).bind fun _ t => .done t 0
  else t.refuse 1002

/-- The kongs of the protocol; `jwg` is an added kong that costs nothing. -/
inductive GangArg where
  | ag
  | zg
  | wg
  | jwg
  deriving DecidableEq, Repr

def gangPai (t : Table) (seat : Nat) (type : GangArg) (pai : Nat) : M Int :=
  if t.mayDo [.pengGangHu, .moPai, .start, .cp] seat then
    let t := { t.setDone seat false with
      pIgnoreHu := Function.update t.pIgnoreHu seat none }
    let act (type : PgType) (jwg : Bool) : Act :=
      { type := .pg type, p := seat, pai := pai, jwg := jwg }
    let run := match type with
      | .ag => dealGang F t t.curRace (act .ag false) .ag
      | .zg => t.pengGangHuManager F t.curRace (.pg (act .zg false))
      | .wg => dealWGang F t t.curRace (act .wg false)
      | .jwg => dealWGang F t t.curRace (act .wg true)
    run.bind fun _ t => .done { t with lastGangSeat := some seat } 0
  else t.refuse 1002

def huTypeOf (hu : HuInfo) : HuType :=
  if hu.dianpaoP.isNone then if hu.tianHu then .tianHu else .zimo
  else if hu.qiangganghu then .qghu
  else .pao

/-- The rain transfer at the end of `CMD.hu_pai`: the seat of the flag pays its
last kong money to the winner.  `acts` is the action list when the win was
announced. -/
def zhuanYu (t : Table) (race seat : Nat) (a : HuAct) (acts : List Act) : M Int :=
  match t.zhuanYuSeat with
  | none => .done t 0
  | some g =>
      match (t.sInfo g).gangScore.getLast? with
      | none => .done t 0
      | some gang =>
          if t.cfg.zhuanYu then
            let t := { t with
              sInfo := Function.update t.sInfo g { t.sInfo g with
                gangScore := (t.sInfo g).gangScore.dropLast ++
                  [{ gang with zhuanYuTo := some seat }] }
              transfers := t.transfers ++
                [⟨g, seat, a.huType, a.info.dianpaoP, acts⟩] }
            dealChangeScoreByScore F t race seat gang.score [g] .zhuanYu
              fun _ _ t => .done t 0
          else .done t 0

def huPai (t : Table) (seat : Nat) : M Int :=
  if t.mayDo [.pengGangHu, .qiangGangHu, .moPai, .start] seat then
    let t := t.setDone seat false
    match (t.pPermit seat).bind Permit.hu with
    | none => .raised t
    | some hu =>
        let a : HuAct := ⟨seat, huTypeOf hu, hu⟩
        let acts := t.actionList
        let race := t.curRace
        let run := match a.huType with
          | .qghu => { t with lastGangSeat := none }.qiangGangHuManager F race seat
              (some a)
          | .pao => t.pengGangHuManager F race (.hu a)
          | _ => dealHu F t race (Function.update (fun _ => none) seat (some a))
        run.bind fun _ t => t.zhuanYu F race seat a acts
  else t.refuse 1002

/-! ## Commands before the first discard -/

def daPiao (t : Table) (seat : Nat) (piaoNum : Int) : M Int :=
  if t.mayDo [.daPiao] seat then
    let t := t.setDone seat false
    if piaoNum ∉ [0, 1, 3, 5] ∨ (t.seat seat).piaoNum ≠ -1 then t.refuse 1002
    else
      let t := t.setSeat seat fun d => { d with piaoNum := piaoNum }
      if t.cfg.seatList.all fun s => (t.seat s).piaoNum ≠ -1 then
        .done (t.wait .daPiaoFinish) 0
      else .done t 0
  else t.refuse 1002

def dingQue (t : Table) (seat flower : Nat) : M Int :=
  if t.mayDo [.dingQue] seat then
    let t := { t.setDone seat false with
      pDingQue := Function.update t.pDingQue seat (some flower) }
    if t.cfg.seatList.all fun s => (t.pDingQue s).any (· ∈ [1, 2, 3]) then
      .done (t.wait .dingQueFinish) 0
    else .done t 0
  else t.refuse 1002

/-- The exchange of a tile for the `k`-th random one of the pool; the position and
the tile are noted. -/
def swapOne (seat : Nat) (r : Table × List (Nat × Nat × Nat)) (old k : Nat) :
    Table × List (Nat × Nat × Nat) :=
  let t := r.1
  let i := t.paiPool.length - random t.rand k 1 t.paiPool.length
  let new := t.paiPool.getD i 0
  ({ t with paiPool := t.paiPool.set i old }.setSeat seat fun d =>
      { d with pai :=
          PaiMap.add (Function.update d.pai old ((d.pai old).map (· - 1))) new },
    r.2 ++ [(i, old, new)])

def swapBack (seat : Nat) (t : Table) (x : Nat × Nat × Nat) : Table :=
  { t with paiPool := t.paiPool.set x.1 x.2.2 }.setSeat seat fun d =>
    let pai := PaiMap.add d.pai x.2.1
    { d with pai := Function.update pai x.2.2 ((pai x.2.2).map (· - 1)) }

def copies (t : Table) (pai : Nat) : Int :=
  t.paiPool.count pai + (t.cfg.seatList.map fun s => (t.seat s).pai.num pai).sum

def huanPai (t : Table) (seat : Nat) (old : List Nat) : Table :=
  if t.paiPool = [] then t
  else
    let r := old.zipIdx.foldl (fun r x => swapOne seat r x.1 x.2) (t, [])
    if paiIds.all fun id => r.1.copies id = 0 ∨ r.1.copies id = 4 then r.1
    else r.2.foldl (swapBack seat) r.1

def huanSanZhang (t : Table) (seat : Nat) (old : List Nat) : M Int :=
  if t.mayDo [.huanPai] seat then
    let t := (t.setDone seat false).huanPai seat old
    let t := t.setSeat seat fun d => { d with isHuanPai := true }
    if t.cfg.seatList.all fun s => (t.seat s).isHuanPai then
      .done (t.wait .huanPaiFinish) 0
    else .done t 0
  else t.refuse 1002

/-! ## Commands of the manager -/

def join (t : Table) (id : Nat) (seat : Option Nat) (score : Int) : M Int :=
  if (t.cfg.seatCount : Int) - 1 < t.pCount ∨ t.status ≠ .waitP ∨
      t.playersJoinFlag id then t.refuse 1002
  else
    match seat.or (t.cfg.seatList.find? fun s => (t.pSeatNumber s).isNone) with
    | none => t.refuse 1000
    | some s =>
        .done { t with
          playersJoinFlag := Function.update t.playersJoinFlag id true
          pSeatNumber := Function.update t.pSeatNumber s (some id)
          onLinePlayer := Function.update t.onLinePlayer s (some id)
          pCount := t.pCount + 1
          pScore := Function.update t.pScore s score
          isQuit := Function.update t.isQuit s false } 0

def playerExitGame (t : Table) (seat : Nat) : M Int :=
  match t.pSeatNumber seat with
  | none => .raised t
  | some id =>
      .done { t with
        playersJoinFlag := Function.update t.playersJoinFlag id false
        ready := Function.update t.ready seat 0
        pReady := t.pReady - 1
        pSeatNumber := Function.update t.pSeatNumber seat none
        onLinePlayer := Function.update t.onLinePlayer seat none
        pCount := t.pCount - 1
        isQuit := Function.update t.isQuit seat true } 0

def readyCmd (t : Table) (seat : Nat) : M Int :=
  if t.ready seat = 0 then
    let t := { t with
      ready := Function.update t.ready seat 1
      pReady := t.pReady + 1 }
    if t.pReady = t.cfg.seatCount then .done t.statusGameBegin 0 else .done t 0
  else .done t 0

def quitRoom (t : Table) (seat : Nat) : M Int :=
  if (t.huOrder seat).isSome then
    .done { t with
      isQuit := Function.update t.isQuit seat true
      onLinePlayer := Function.update t.onLinePlayer seat none } 0
  else .done t 0

def finishGame (t : Table) (status : Status) : M Unit :=
  (t.enter status).ask .tableFinish fun _ t => .done { t with gone := true } ()

def cancelGame (t : Table) : M Int :=
  if t.status ≠ .waitP then t.refuse 1002
  else (t.finishGame .gamecancel).bind fun _ t => .done t 0

def breakGame (t : Table) : M Int :=
  if t.status = .gameover then t.refuse 1002
  else
    let t := { t with isBreakGame := true }
    if t.status = .ready then (t.finishGame .gameover).bind fun _ t => .done t 0
    else if t.status ≠ .settlement then
      (settle F { t with isBreakRace := true }).bind fun _ t => .done t 0
    else .done t 0

def overTimeCancelGame (t : Table) : M Int :=
  if t.status = .waitP then t.cancelGame else t.breakGame F

def forceBreakGame (t : Table) : M Int :=
  { t with isBreakGame := true }.saveRaceOverLog fun t =>
    .done ((t.sendSettlement fun _ => 0).wait .gameover) 0

/-! ## Steps -/

def changeStatus (t : Table) : Status → M Unit
  | .gameBegin => .done t.statusGameBegin ()
  | .touSezi => .done t.statusTouSezi ()
  | .fapai => .done t.statusFapai ()
  | .huanPai => .done (t.permitAll .huanPai) ()
  | .huanPaiFinish => .done (t.enter .huanPaiFinish).statusHuanPaiFinish ()
  | .daPiao => .done (t.permitAll .daPiao) ()
  | .daPiaoFinish => .done (t.enter .daPiaoFinish).statusDaPiaoFinish ()
  | .dingQue => .done (t.permitAll .dingQue) ()
  | .dingQueFinish => .done ((t.enter .dingQueFinish).wait .start) ()
  | .cp => .done t.statusChuPai ()
  | .start => t.startCp
  | .moPai => statusMoPai F t
  | .settlement => settle F t
  | .gameover => t.finishGame .gameover
  | .gamecancel => t.finishGame .gamecancel
  | status => .done (t.enter status) ()

def update (t : Table) : M Int :=
  match t.status, t.nextStatus with
  | .wait, some next => (t.changeStatus F next).bind fun _ t => .done t 0
  | .touSezi, _ => .done t.statusFapai 0
  | _, _ => .done t 0

end Table

inductive Event where
  | join (id : Nat) (seat : Option Nat) (score : Int)
  | playerExitGame (seat : Nat)
  | ready (seat : Nat)
  | daPiao (seat : Nat) (piaoNum : Int)
  | dingQue (seat flower : Nat)
  | huanSanZhang (seat : Nat) (old : List Nat)
  | chuPai (seat pai : Nat)
  | guoPai (seat : Nat)
  | pengPai (seat pai : Nat)
  | gangPai (seat : Nat) (type : Table.GangArg) (pai : Nat)
  | huPai (seat : Nat)
  | quitRoom (seat : Nat)
  | cancelGame
  | breakGame
  | overTimeCancelGame
  | forceBreakGame
  | update

namespace Table

variable (F : NumFormat)

def handle (t : Table) : Event → M Int
  | .join id seat score => t.join id seat score
  | .playerExitGame seat => t.playerExitGame seat
  | .ready seat => t.readyCmd seat
  | .daPiao seat piaoNum => t.daPiao seat piaoNum
  | .dingQue seat flower => t.dingQue seat flower
  | .huanSanZhang seat old => t.huanSanZhang seat old
  | .chuPai seat pai => t.chuPai F seat pai
  | .guoPai seat => t.guoPai F seat
  | .pengPai seat pai => t.pengPai F seat pai
  | .gangPai seat type pai => t.gangPai F seat type pai
  | .huPai seat => t.huPai F seat
  | .quitRoom seat => t.quitRoom seat
  | .cancelGame => t.cancelGame
  | .breakGame => t.breakGame F
  | .overTimeCancelGame => t.overTimeCancelGame F
  | .forceBreakGame => t.forceBreakGame
  | .update => t.update F

/-- An event with the random numbers it draws.  A table that has been returned,
or whose service hangs, does not react. -/
def step (e : Event × (Nat → Nat)) : Handler Table Query Answer Int := fun t =>
  if t.gone ∨ t.hung then t.refuse 1002 else { t with rand := e.2 }.handle F e.1

/-- An agent takes at most what is asked for, and a win cap is no debt. -/
def Valid : Query → Answer → Prop
  | .modifyScore _ score, a =>
      (score ≤ 0 → score ≤ a.value ∧ a.value ≤ 0) ∧ (0 ≤ score → a.value = score)
  | .yingfengding _, a => 0 ≤ a.value
  | _, _ => True

instance decidableValid : (q : Query) → (a : Answer) → Decidable (Valid q a)
  | .modifyScore _ score, a => inferInstanceAs (Decidable
      ((score ≤ 0 → score ≤ a.value ∧ a.value ≤ 0) ∧ (0 ≤ score → a.value = score)))
  | .yingfengding _, a => inferInstanceAs (Decidable (0 ≤ a.value))
  | .raceLog, _ => .isTrue trivial
  | .tableFinish, _ => .isTrue trivial

end Table

end JyQipai.Mj
