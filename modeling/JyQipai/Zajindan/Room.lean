import JyQipai.Lib.Reach
import JyQipai.Zajindan.Eggs

/-!
# The room of the golden eggs

`zajindan_room_service` with `get_award_data`: strikes, new eggs, and the tables with what their
commands answer and send.  Statistics and logs are left out.  A handler that asks the data
service goes on with its answer, which is an event of its own.
-/

namespace JyQipai.Zajindan.Room

open Lib

structure GameData where
  baseMoney : Int
  oriReplaceMoney : Int
  replaceMoney : Int
  openedEggNum : Nat := 0
  roundId : Int := 0
  replaceEggSpend : ℚ := 0
  awardData : List Egg := []
  eggsStatus : Option (List Int) := none
  eggsOpenStatus : Option (List Int) := none
  deriving DecidableEq, Repr

/-- An egg that was opened, and the place of its award in `award_data`. -/
structure Opened where
  eggNo : Nat
  awardIndex : Nat
  award : Nat
  awardMoney : Int
  deriving DecidableEq, Repr

/-- What comes of a strike: `kaijiang` has the eggs that it opened, if any. -/
inductive Strike where
  | refused
  | raised
  | hit (kaijiang : List Opened)
  deriving DecidableEq, Repr

/-! ## Strikes -/

namespace GameData

variable (cfg : Config) (g : GameData)

def statusAt (eggNo : Nat) : Option Int :=
  if eggNo = 0 then none else (g.eggsStatus.getD [])[eggNo - 1]?

def goodEggs : List Nat :=
  ((g.eggsStatus.getD []).zipIdx.filter fun (status, _) => status ≠ -1).map fun (_, i) => i + 1

def partIndexes (awardType : AwardType) : List Nat :=
  (g.awardData.zipIdx.filter fun (egg, _) => isPart awardType egg).map fun (_, i) => i + 1

def hammerEggs (hit : Nat) : List Nat :=
  let left := if hit = 1 then totalEggsNum else hit - 1
  let right := if hit = totalEggsNum then 1 else hit + 1
  hit :: [left, right].filter fun i => g.statusAt i ≠ some (-1)

def hammerIndexes (key : Nat) : Nat → List Nat
  | 1 => [key]
  | 2 => [realRateEggsNum + 1, realRateEggsNum + 2]
  | _ => [realRateEggsNum + 3, realRateEggsNum + 4, realRateEggsNum + 5]

def pickEggs : Nat → List Nat → Draw (List Nat)
  | 0, _ => pure []
  | n + 1, good => do
      let egg ← Draw.choose good
      let eggs ← pickEggs n (good.erase egg)
      pure (egg :: eggs)

def getSkillEggs (key : Nat) (awardType : AwardType) (hit : Nat) : Draw (List (Nat × Nat)) :=
  if awardType = .bigHammer then
    let eggs := g.hammerEggs hit
    let indexes := hammerIndexes key eggs.length
    if indexes.all fun i => i ≤ g.awardData.length then pure (eggs.zip indexes) else Draw.fail
  else
    let indexes := g.partIndexes awardType
    if g.goodEggs.length < indexes.length then Draw.fail
    else if awardType = .free ∨ awardType = .openAll then do
      let eggs ← pickEggs (indexes.length - 1) (g.goodEggs.erase hit)
      pure ((hit :: eggs).zip indexes)
    else do
      let eggs ← pickEggs indexes.length g.goodEggs
      pure (eggs.zip indexes)

def firstAward : Option (Egg × Nat) :=
  (g.awardData.zipIdx.find? fun (egg, _) => !egg.isGetAward).map fun (egg, i) => (egg, i + 1)

def takeAward (i : Nat) : GameData :=
  { g with awardData := g.awardData.modify (i - 1) fun e => { e with isGetAward := true } }

def take (opened : List Opened) : GameData :=
  let g := opened.foldl (fun g o => g.takeAward o.awardIndex) g
  let num := g.openedEggNum + opened.length
  { g with
    openedEggNum := num
    replaceMoney :=
      if num ≤ realRateEggsNum then
        (realRateEggsNum - num : Nat) * g.oriReplaceMoney / realRateEggsNum
      else 0 }

def openedOf (p : Nat × Nat) : Opened :=
  let id := ((g.awardData[p.2 - 1]?).map Egg.id).getD 0
  ⟨p.1, p.2, id, cfg.awardOf id * g.baseMoney⟩

def setStatus (eggNo : Nat) (status : Int) : GameData :=
  { g with eggsStatus := g.eggsStatus.map fun l => l.set (eggNo - 1) status }

def laterOpen (status openStatus : Int) : Draw Int := do
  let first ← Draw.unit
  let step ← if first ≤ 33 / 100 then pure 1 else do
    let second ← Draw.unit
    pure (if 1 / 2 < second then 0 else -1)
  pure (min (openStatus + step) 5 + status)

def openEggs (hit : Nat) (status openStatus : Int) (opened : List Opened) : Draw GameData :=
  let g := (opened.map Opened.eggNo).foldl (fun g i => g.setStatus i (-1)) g
  if hit ∈ opened.map Opened.eggNo then pure g
  else do
    let openStatus ← laterOpen status openStatus
    pure { g with eggsOpenStatus := g.eggsOpenStatus.map fun l => l.set (hit - 1) openStatus }

def strikeEggs (egg : Egg) (key hit : Nat) : Draw (List (Nat × Nat)) :=
  if egg.awardType = .normal then pure [(hit, key)] else g.getSkillEggs key egg.awardType hit

/-- A strike that opens: `get_award_data` and what follows.  A big hammer counts as taken even
if an error is raised. -/
def openStrike (hit : Nat) (status openStatus : Int) (tape : Tape) : Strike × GameData :=
  match g.firstAward with
  | none =>
      match openEggs g hit status openStatus [] tape 0 with
      | none => (.raised, g)
      | some (g, _) => (.hit [], g)
  | some (egg, key) =>
      let g := if egg.awardType = .bigHammer then g.takeAward key else g
      match (do
        let pairs ← g.strikeEggs egg key hit
        let opened := pairs.map (g.openedOf cfg)
        let g ← openEggs (g.take opened) hit status openStatus opened
        pure (opened, g) : Draw (List Opened × GameData)) tape 0 with
      | none => (.raised, g)
      | some ((opened, g), _) => (.hit opened, g)

def strike (eggNo : Nat) (tape : Tape) : Strike × GameData :=
  if g.eggsStatus = none then (.raised, g)
  else
    match g.statusAt eggNo with
    | none => (.refused, g)
    | some status =>
        if status = -1 then (.refused, g)
        else
          let g := g.setStatus eggNo (status + 1)
          match (g.eggsOpenStatus.getD [])[eggNo - 1]? with
          | none => (.raised, g)
          | some openStatus =>
              if status + 1 < openStatus then (.hit [], g)
              else g.openStrike cfg eggNo (status + 1) openStatus tape

end GameData

/-! ## Tables -/

/-- A table in `game_table`. -/
structure Table where
  playerId : String
  gamingHammerId : Nat := 1
  hammerGameData : Nat → Option GameData := fun _ => none

def Table.setGame (d : Table) (hammerId : Nat) (g : GameData) : Table :=
  { d with hammerGameData := Function.update d.hammerGameData hammerId (some g) }

def newGame (cfg : Config) (hammerId : Nat) (old : Option GameData) (remain : List Nat)
    (isReplaceEgg : Bool) (kickback : Option Nat) : Draw (GameData × Option Nat) := do
  let hammer ← Draw.ofOption (cfg.hammerOf hammerId)
  let awardData := ((old.map GameData.awardData).getD []) ++
    remain.map fun id => { id := id }
  let init ← initAwardData cfg hammer isReplaceEgg awardData
    ((old.map GameData.replaceEggSpend).getD 0) kickback
  pure
    ({ baseMoney := hammer.baseMoney
       oriReplaceMoney := hammer.replaceMoney
       replaceMoney := hammer.replaceMoney
       replaceEggSpend := init.replaceEggMoney
       awardData := init.awardData }, init.kickback)

def newGames (cfg : Config) (remain : Nat → List Nat) :
    List Nat → Table → Option Nat → Draw (Table × Option Nat)
  | [], d, kickback => pure (d, kickback)
  | hammerId :: ids, d, kickback => do
      let (g, kickback) ← newGame cfg hammerId none (remain hammerId) false kickback
      newGames cfg remain ids (d.setGame hammerId g) kickback

/-- The eggs that `return_table` saves, for the hammers in the order of `pairs`; in the table
they are marked. -/
def savedEggs (cfg : Config) :
    List Nat → Table → Option Nat → Option (List (Nat × List Nat) × Table × Option Nat)
  | [], d, kickback => some ([], d, kickback)
  | hammerId :: ids, d, kickback =>
      (d.hammerGameData hammerId).bind fun g =>
        (getOldRealEgg cfg g.awardData realRateEggsNum kickback).bind fun carry =>
          let d := d.setGame hammerId { g with awardData := carry.eggs }
          (savedEggs cfg ids d carry.kickback).map fun (saved, d, kickback) =>
            ((hammerId, carry.old.map Egg.id) :: saved, d, kickback)

inductive Lock where
  | zaJinDan
  | replaceEggs
  | replaceHammer
  deriving DecidableEq, Repr

/-- What belongs to one number of a table: the table and its count, those that were returned,
the locks, whether a new table waits for the data of its player, and the `replace_eggs` that
wait for the number of their round, each with the count of its table. -/
structure Desk where
  table : Option Table := none
  count : Nat := 0
  returned : Nat → Option Table := fun _ => none
  actionLock : Lock → Bool := fun _ => false
  starting : Bool := false
  rounds : List (Nat × Nat) := []

inductive Answer where
  | error (code : Int)
  | raised
  | waits
  | seated (eggs : List (List Nat))
  | struck (kaijiang : List Opened) (game : GameData)
  | eggs (awardList : List Nat) (game : GameData)
  | hammer (gamingHammerId : Nat)
  | returned (saved : List (Nat × List Nat))
  deriving DecidableEq, Repr

/-- The commands for a table, and the answers of the data service.  `employ_table` has chosen
the table of `newTable`. -/
inductive Op where
  | newTable (playerId : String)
  | playerData (remain : Nat → List Nat)
  | zaJinDan (hammerId eggNo : Nat)
  | replaceEggs (hammerId : Nat) (isSpendMoney : Bool)
  | round (roundId : Int)
  | replaceHammer (newHammerId : Nat)
  | returnTable

namespace Desk

variable (cfg : Config) (order : List Nat) (desk : Desk) (kickback : Option Nat) (tape : Tape)

def setLock (lock : Lock) (b : Bool) : Desk :=
  { desk with actionLock := Function.update desk.actionLock lock b }

def setGame (d : Table) (hammerId : Nat) (g : GameData) : Desk :=
  { desk with table := some (d.setGame hammerId g) }

def zaJinDan (hammerId eggNo : Nat) : Answer × Desk :=
  if desk.actionLock .zaJinDan then (.error 1008, desk)
  else
    match desk.table.bind fun d => (d.hammerGameData d.gamingHammerId).map fun g => (d, g) with
    | none => (.raised, desk.setLock .zaJinDan true)
    | some (d, g) =>
        if g.eggsStatus = none then (.raised, desk.setLock .zaJinDan true)
        else if hammerId ≠ d.gamingHammerId then (.error 1003, desk)
        else
          match g.strike cfg eggNo tape with
          | (.refused, _) => (.error 1003, desk)
          | (.raised, g) => (.raised, (desk.setGame d hammerId g).setLock .zaJinDan true)
          | (.hit opened, g) => (.struck opened g, desk.setGame d hammerId g)

def openStatuses : Nat → Draw (List Int)
  | 0 => pure []
  | n + 1 => do
      let status ← Draw.range 1 5
      let statuses ← openStatuses n
      pure (status :: statuses)

def spend (g : GameData) : GameData :=
  { g with replaceEggSpend := g.replaceEggSpend + g.replaceMoney }

def replacedGame (hammerId : Nat) (isSpendMoney : Bool) (old : Option GameData) :
    Draw (GameData × Option Nat) := do
  let old ← if isSpendMoney then do
    let g ← Draw.ofOption old
    pure (some (spend g)) else pure old
  let (g, kickback) ← newGame cfg hammerId old [] isSpendMoney kickback
  let statuses ← openStatuses totalEggsNum
  pure
    ({ g with
        eggsStatus := some (List.replicate totalEggsNum 0)
        eggsOpenStatus := some statuses }, kickback)

def replaceEggs (hammerId : Nat) (isSpendMoney : Bool) : Answer × Desk × Option Nat :=
  if desk.actionLock .replaceEggs then (.error 1008, desk, kickback)
  else
    match desk.table with
    | none => (.error 1003, desk, kickback)
    | some d =>
        if hammerId ≠ d.gamingHammerId then (.error 1003, desk, kickback)
        else
          let locked := desk.setLock .replaceEggs true
          match replacedGame cfg kickback hammerId isSpendMoney (d.hammerGameData hammerId)
            tape 0 with
          | none => (.raised, locked, kickback)
          | some ((g, kickback), _) =>
              (.eggs (g.awardData.map Egg.id) g,
                { locked.setGame d hammerId g with
                  rounds := locked.rounds ++ [(desk.count, hammerId)] }, kickback)

def tableAt (count : Nat) : Option Table :=
  if count = desk.count ∧ desk.table.isSome then desk.table else desk.returned count

def setTable (count : Nat) (d : Table) : Desk :=
  if count = desk.count ∧ desk.table.isSome then { desk with table := some d }
  else { desk with returned := Function.update desk.returned count (some d) }

def round (roundId : Int) : Answer × Desk :=
  match desk.rounds with
  | [] => (.waits, desk)
  | (count, hammerId) :: rounds =>
      match (desk.tableAt count).bind fun d =>
        (d.hammerGameData hammerId).map fun g => (d, g) with
      | none => (.raised, { desk with rounds := rounds })
      | some (d, g) =>
          let g := { g with roundId := roundId }
          (.eggs (g.awardData.map Egg.id) g,
            { (desk.setTable count (d.setGame hammerId g)).setLock .replaceEggs false with
              rounds := rounds })

def step : Op → Answer × Desk × Option Nat
  | .newTable playerId =>
      (.waits, { desk with
        table := some { playerId := playerId }
        count := desk.count + 1
        starting := true }, kickback)
  | .playerData remain =>
      match desk.starting, desk.table with
      | true, some d =>
          match newGames cfg remain [1, 2, 3, 4] d kickback tape 0 with
          | none => (.raised, { desk with starting := false }, kickback)
          | some ((d, kickback), _) =>
              (.seated ([1, 2, 3, 4].map fun i =>
                  (((d.hammerGameData i).map GameData.awardData).getD []).map Egg.id),
                { desk with
                  table := some d
                  starting := false }, kickback)
      | _, _ => (.waits, desk, kickback)
  | .zaJinDan hammerId eggNo =>
      let (a, desk) := desk.zaJinDan cfg tape hammerId eggNo
      (a, desk, kickback)
  | .replaceEggs hammerId isSpendMoney =>
      desk.replaceEggs cfg kickback tape hammerId isSpendMoney
  | .round roundId =>
      let (a, desk) := desk.round roundId
      (a, desk, kickback)
  | .replaceHammer newHammerId =>
      if desk.actionLock .replaceHammer then (.error 1008, desk, kickback)
      else
        match desk.table with
        | none => (.error 1003, desk, kickback)
        | some d =>
            if d.hammerGameData newHammerId = none then (.error 1003, desk, kickback)
            else
              (.hammer newHammerId,
                { desk with table := some { d with gamingHammerId := newHammerId } }, kickback)
  | .returnTable =>
      match desk.table with
      | none => (.raised, desk, kickback)
      | some d =>
          match savedEggs cfg order d kickback with
          | none => (.raised, desk, kickback)
          | some (saved, d, kickback) =>
              (.returned saved, { desk with
                table := none
                returned := Function.update desk.returned desk.count (some d) }, kickback)

end Desk

structure Service where
  kickback : Option Nat := none
  desks : Nat → Desk := fun _ => {}

structure Event where
  tableId : Nat
  op : Op
  tape : Tape

def Service.step (cfg : Config) (order : List Nat) (s : Service) (e : Event) :
    Answer × Service :=
  let (a, desk, kickback) := (s.desks e.tableId).step cfg order s.kickback e.tape e.op
  (a,
    { kickback := kickback
      desks := Function.update s.desks e.tableId desk })

end JyQipai.Zajindan.Room
