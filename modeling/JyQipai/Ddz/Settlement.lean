import JyQipai.Ddz.Table
import JyQipai.Lib.Float

/-!
# Settlement of a hand

`settlement` fixes the rates and the awards of a finished hand; in between it
asks the agents how much their players may win.  `calculate_score` then moves
the money: it deducts from the losers, learns what was really deducted, and
shares that out among the winners.
-/

namespace JyQipai.Ddz

open JyQipai.Lib

namespace Table

def others (t : Table) : List Nat :=
  t.cfg.seatList.filter fun s => s ≠ t.play.dizhu

@[simps cfg play outbox toCtrl toHand toMld toLobby toRaces toTrace]
def mulRate (t : Table) (k : Nat) : Table :=
  { t with pRate := fun s => if s ∈ t.cfg.seatList then t.pRate s * k else t.pRate s }

@[simps cfg play outbox toCtrl toHand toMld toLobby toRaces toTrace]
def sumRate (t : Table) : Table :=
  { t with pRate :=
      Function.update t.pRate t.play.dizhu (t.others.map t.pRate).sum }

def cappedRate (t : Table) (seats : List Nat) : Nat → Nat :=
  fun s => if s ∈ seats then min (t.pRate s) t.cfg.fengDing else t.pRate s

@[simps cfg play outbox toCtrl toHand toMld toLobby toRaces toTrace]
def fixRate (t : Table) : Table :=
  { t with pRate :=
      if t.cfg.fengDing = 0 then t.pRate
      else if t.cfg.gameType = .er then t.cappedRate t.cfg.seatList
      else
        let r := t.cappedRate t.others
        Function.update r t.play.dizhu (t.others.map r).sum }

/-! ## Awards -/

/-- What each seat wins if the farmers win their rates (`sign` 1) or lose them
(`sign` -1). -/
def awards (t : Table) (sign : Int) (s : Nat) : Int :=
  let award (s : Nat) : Int := sign * (t.pRate s * t.cfg.initStake : Nat)
  if s = t.play.dizhu then -(t.others.map award).sum
  else if s ∈ t.others then award s
  else 0

def nm1 (t : Table) : Nat := t.nongmin.getD 0 0

def nm2 (t : Table) : Nat := t.nongmin.getD 1 0

def notAuto (t : Table) (seat : Nat) : Bool :=
  t.pAuto seat == none || t.pAuto seat == some 0

end Table

def SInfo.awardOf (s : SInfo) (seat : Nat) : Int :=
  s.award.getD (fun _ => 0) seat

def SInfo.setAward (s : SInfo) (seat : Nat) (v : Int) : SInfo :=
  { s with award := some (Function.update (s.award.getD fun _ => 0) seat v) }

def SInfo.setSurplus (s : SInfo) (seat : Nat) (v : Option Int) : SInfo :=
  { s with loseSurplus := Function.update s.loseSurplus seat v }

/-- The farmer `pos` plays automatically and answers for the farmer `other`. -/
def SInfo.baopei (s : SInfo) (pos other : Nat) : SInfo :=
  if s.winner = 5 then
    ({ s with autoBaopeiPos := some pos }.setAward pos
      (s.awardOf pos * 2)).setAward other 0
  else
    ({ s with autoBaopeiPos := some pos }.setAward pos 0).setAward other
      (s.awardOf other * 2)

namespace Table

@[simps cfg play outbox toCtrl toHand toMld toLobby toRaces toTrace]
def checkBaopei (t : Table) : Table :=
  let check : Bool := t.cfg.baopei ∧
    (t.sInfo.winner = 5 ∨ t.sInfo.winner = 4) ∧ t.cfg.gameType ≠ .er
  { t.readIf check .nongmin with
    sInfo :=
      if check ∧ t.pAuto t.nm1 = some 1 ∧ t.notAuto t.nm2 then
        t.sInfo.baopei t.nm1 t.nm2
      else if check ∧ t.notAuto t.nm1 ∧ t.pAuto t.nm2 = some 1 then
        t.sInfo.baopei t.nm2 t.nm1
      else t.sInfo }

/-- The landlord has won without a card of the farmers, or the farmers after a
single play of the landlord. -/
def isSpring (t : Table) (winner : Nat) : Bool :=
  if winner = t.play.dizhu then
    t.pCpCount 1 + t.pCpCount 2 + t.pCpCount 3 = t.pCpCount t.play.dizhu
  else t.pCpCount t.play.dizhu = 1

@[simps cfg play outbox toCtrl toHand toMld toLobby toRaces toTrace]
def chuntian (t : Table) (winner : Nat) : Table :=
  let spring := t.isSpring winner
  { (t.writeIf spring .isChuntian).mulRate (if spring then 2 else 1) with
    isChuntian :=
      if spring then if winner = t.play.dizhu then 1 else 2 else t.isChuntian }

def freshInfo (t : Table) : SInfo :=
  { t.sInfo with loseSurplus := fun _ => some 0, pRate := fun _ => 0 }

@[simps cfg play outbox toCtrl toHand toMld toLobby toRaces toTrace]
def winAwards (t : Table) (winner : Nat) : Table :=
  let dizhuWins : Bool := winner = t.play.dizhu
  let u := (t.chuntian winner).fixRate
  { u with sInfo := { t.freshInfo with
      winner := if dizhuWins then 5 else 4
      award := some (u.awards (if dizhuWins then -1 else 1)) } }

/-- `settlement` up to the check of the win caps; the winner 0 is a hand that
is broken off. -/
def settleAwards (t : Table) (winner : Nat) : Table :=
  if winner = 0 then
    { t with sInfo := { t.freshInfo with winner := 0, award := some fun _ => 0 } }
  else (t.winAwards winner).checkBaopei

@[simps! cfg play outbox toCtrl toHand toMld toLobby toRaces toTrace]
def settlementEnd (t : Table) : Table :=
  { t with sInfo := { t.sInfo with
      pRate := fun s => if 1 ≤ s ∧ s ≤ 3 then t.pRate s else 0 } }.wait .settlement

end Table

/-! ## Win caps -/

def SInfo.cap (s : SInfo) (seat : Nat) (maxWin : Int) (isOver : Bool) : SInfo :=
  if isOver then
    { s.setAward seat maxWin with
      yingfengdingData := some (Function.update
        (s.yingfengdingData.getD fun _ => some 0) seat (some maxWin)) }
  else s

def capNongmin (caps : Nat → Int) :
    List (Nat × Int) → Int → SInfo → SInfo × Int
  | [], all, s => (s, all)
  | (k, v) :: todo, all, s =>
      let s := s.cap k (caps k) (caps k < v)
      capNongmin caps todo (all + s.awardOf k) s

def capDizhu (maxWin : Int) :
    List (Nat × Int) → Int → SInfo → SInfo × Int
  | [], all, s => (s, all)
  | (k, v) :: todo, all, s =>
      let s := s.cap k maxWin (v < maxWin)
      capDizhu maxWin todo (all + s.awardOf k) s

namespace Table

def awardList (t : Table) (p : Int → Bool) : List (Nat × Int) :=
  (t.cfg.seatList.map fun s => (s, t.sInfo.awardOf s)).filter fun kv => p kv.2

@[simps cfg play outbox toCtrl toHand toMld toLobby toRaces toTrace]
def setDizhuAward (t : Table) (s : SInfo) (v : Int) : Table :=
  { t with sInfo := s.setAward t.play.dizhu v }

@[simps! cfg play outbox toCtrl toHand toMld toLobby toRaces toTrace]
def capDizhuAnswer (t : Table) (maxWin : Int) : Table :=
  let r := capDizhu (-maxWin) (t.awardList (· < 0)) 0 t.sInfo
  t.setDizhuAward r.1 (-r.2)

def settlementWith (t : Table) (caps : Nat → Int) (winner : Nat) : Table :=
  let t := t.settleAwards winner
  if t.cfg.yingfengding then
    if t.sInfo.winner = 4 then
      let r := capNongmin caps (t.awardList (0 < ·)) 0 t.sInfo
      (t.setDizhuAward r.1 (-r.2)).settlementEnd
    else if t.sInfo.winner = 5 then
      (t.capDizhuAnswer (caps t.play.dizhu)).settlementEnd
    else t.settlementEnd
  else t.settlementEnd

def settlement (t : Table) (winner : Nat) : Table :=
  let t := t.settleAwards winner
  if t.cfg.yingfengding then
    if t.sInfo.winner = 4 then
      match t.awardList (0 < ·) with
      | [] => (t.setDizhuAward t.sInfo 0).settlementEnd
      | todo => { t with pending := t.pending ++ [.capNongmin todo 0] }
    else if t.sInfo.winner = 5 then
      { t with pending := t.pending ++ [.capDizhu] }
    else t.settlementEnd
  else t.settlementEnd

/-- The answer to a call of `settlement`.  If `new_game` has replaced the
settlement record in the meantime, the loop raises an error. -/
def resumeSettlement (t : Table) (answer : Int) : Pending → Table
  | .capNongmin ((k, v) :: todo) all =>
      if t.sInfo.award = none then t
      else
        let s := t.sInfo.cap k answer (answer < v)
        let all := all + s.awardOf k
        match todo with
        | [] => (t.setDizhuAward s (-all)).settlementEnd
        | todo =>
            { t with sInfo := s, pending := t.pending ++ [.capNongmin todo all] }
  | .capDizhu =>
      if t.sInfo.award = none then t
      else (t.capDizhuAnswer answer).settlementEnd
  | .capNongmin [] _ => t

end Table

/-! ## Payment -/

/-- One call of `nor_ddz_nor_modify_score`: the amount asked for and the amount
the agent reports. -/
structure ScoreCall where
  seat : Nat
  asked : Int
  answer : Int
  deriving DecidableEq, Repr

section Pay

variable (F : NumFormat) (answer : Nat → Int → Int) (yingfengding : Bool)

def SInfo.clearCap (s : SInfo) (pos : Nat) (drop : Int → Bool) : SInfo :=
  match s.yingfengdingData with
  | none => s
  | some data =>
      if yingfengding && data pos != some 0 && (data pos).any drop then
        { s with yingfengdingData := some (Function.update data pos none) }
      else s

def SInfo.markCap (s : SInfo) (pos : Nat) : SInfo :=
  { s with
    yingfengding :=
      some (Function.update (s.yingfengding.getD fun _ => 0) pos 1) }

def deductNongmin :
    List Nat → SInfo → Int → Int → List ScoreCall →
      SInfo × Int × Int × List ScoreCall
  | [], s, real, surplus, calls => (s, real, surplus, calls)
  | pos :: todo, s, real, surplus, calls =>
      let asked := s.awardOf pos
      if asked = 0 then deductNongmin todo s real surplus calls
      else
        let rd := answer pos asked
        let s := ((s.setSurplus pos (some (rd - asked))).setAward pos rd).clearCap
          yingfengding pos fun data => data < rd
        deductNongmin todo s (real + rd) (surplus + (rd - asked))
          (calls ++ [⟨pos, asked, rd⟩])

def SInfo.splitShares (s : SInfo) (dizhu nm1 nm2 : Nat) (real fp1 : Int) : SInfo :=
  let lose : ℚ := (-((s.loseSurplus dizhu).getD 0) : Int)
  let lp := F.div fp1 real
  let surplus (x : ℚ) : Option Int :=
    if real = 0 then none else some ⌈F.mul lose x⌉
  (((s.setAward nm1 fp1).setAward nm2 (real - fp1)).setSurplus nm1
    (surplus lp)).setSurplus nm2 (surplus (F.sub 1 lp))

def SInfo.distribute (s : SInfo) (gameType : GameType) (dizhu : Nat)
    (nongmin : List Nat) (real : Int) : SInfo :=
  let nm1 := nongmin.getD 0 0
  let nm2 := nongmin.getD 1 0
  if gameType = .er then s.setAward nm1 real
  else
    match s.autoBaopeiPos with
    | some pos =>
        match nongmin.find? (fun s => s ≠ pos) with
        | none => s
        | some other =>
            (s.setAward other real).setSurplus other
              ((s.loseSurplus dizhu).map fun v => -v)
    | none =>
        if s.awardOf nm1 + s.awardOf nm2 ≤ real then
          (s.setSurplus nm1 (some 0)).setSurplus nm2 (some 0)
        else if s.yingfengdingData.isSome then
          let r1 : ℚ := s.awardOf nm1
          let r2 : ℚ := s.awardOf nm2
          s.splitShares F dizhu nm1 nm2 real ⌈F.mul real (F.div r1 (r1 + r2))⌉
        else
          let r1 : ℚ := s.pRate nm1
          let r2 : ℚ := s.pRate nm2
          let fp1 :=
            if s.pRate nm1 ≠ s.pRate nm2 then ⌈F.mul real (F.div r1 (r1 + r2))⌉
            else ⌈F.div real 2⌉
          s.splitShares F dizhu nm1 nm2 real fp1

def SInfo.settleCap (s : SInfo) (pos : Nat) : SInfo :=
  match s.yingfengdingData.map fun data => data pos with
  | some (some data) =>
      if yingfengding && data != 0 then
        if s.awardOf pos < data then s.clearCap yingfengding pos fun _ => true
        else s.markCap pos
      else s
  | _ => s

def payNongmin : List Nat → SInfo → List ScoreCall → SInfo × List ScoreCall
  | [], s, calls => (s, calls)
  | pos :: todo, s, calls =>
      let award := s.awardOf pos
      if 0 < award then
        payNongmin todo (s.settleCap yingfengding pos)
          (calls ++ [⟨pos, award, answer pos award⟩])
      else payNongmin todo s calls

end Pay

/-- `calculate_score` with the answers of the agents: the settlement record and
the calls that were made. -/
def Table.calculateScore (F : NumFormat) (answer : Nat → Int → Int) (t : Table) :
    SInfo × List ScoreCall :=
  let s := t.sInfo
  let dizhu := t.play.dizhu
  let r : SInfo × List ScoreCall :=
    if s.winner = 5 then
      let r := deductNongmin answer t.cfg.yingfengding t.nongmin s 0 0 []
      let s := (r.1.setAward dizhu (-r.2.1)).setSurplus dizhu (some (-r.2.2.1))
      let s :=
        if t.cfg.yingfengding && (s.yingfengdingData.any fun data =>
            (data 1).isSome || (data 2).isSome || (data 3).isSome) then
          s.markCap dizhu
        else s
      (s, r.2.2.2 ++ [⟨dizhu, -r.2.1, answer dizhu (-r.2.1)⟩])
    else if s.winner = 4 then
      let asked := s.awardOf dizhu
      let rd := answer dizhu asked
      let s := (s.setSurplus dizhu (some (rd - asked))).setAward dizhu rd
      let s := s.distribute F t.cfg.gameType dizhu t.nongmin (-rd)
      payNongmin answer t.cfg.yingfengding t.nongmin s [⟨dizhu, asked, rd⟩]
    else (s, [])
  ({ r.1 with yingfengdingData := none }, r.2)

end JyQipai.Ddz
