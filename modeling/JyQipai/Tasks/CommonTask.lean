import JyQipai.Lib.Double

/-!
# Tasks with levels

A task object of `common_task`, with `task_base_func` and the requests of `task_mgr` for its
awards.  The level that a client asks for is an integer of the protocol, and a configuration has
at least one step.
-/

namespace JyQipai.Tasks

open Lib

inductive OwnType where
  | stepTask
  | goldpigNew2
  | qysZhouka
  | other
  deriving DecidableEq, Repr

structure AwardItem where
  assetType : String
  value : Int
  weight : Option Int := none
  lifetime : Option Int := none
  validTime : Option Int := none
  deriving DecidableEq, Repr

/-- `validTime` holds `start_valid_time` and `end_valid_time` where both are given. -/
structure Config where
  processData : List Int
  awardData : List (List AwardItem)
  randomAward : Bool := false
  ownType : OwnType := .other
  validTime : Option (Int × Int) := none

structure Paid where
  level : Int
  process : Int
  deriving DecidableEq, Repr

/-- The task, the bounds for red packets that all step tasks share, and the locks of both
requests.  The bits of the levels are a double, where `none` is infinity; `paid` is the history of
the awards. -/
structure Task where
  config : Config
  process : Int := 0
  taskRound : Int := 1
  lv : Int := 1
  processIndex : Nat := 1
  nowLvProcess : Int := 0
  nowLvNeedProcess : Int := 0
  maxProcess : Int := 0
  taskAwardGetStatus : Option ℚ := some 0
  nowStepGetHongbaoNum : Int := 0
  totalStepHongbaoNum : Int := 0
  awardLock : Bool := false
  awardNewLock : Bool := false
  paid : List Paid := []

/-! ## Progress -/

def getMaxProcess : List Int → Int
  | [] => 0
  | step :: steps => if step = -1 then 99999999999 else
      if -1 ∈ steps then 99999999999 else step + getMaxProcess steps

def stepAt (processData : List Int) (index : Nat) : Int × Nat :=
  match processData[index - 1]? with
  | none => (0, index + 1)
  | some step =>
      if step = -1 then (processData.getD (index - 2) 0, index) else (step, index + 1)

def totalFrom (processData : List Int) : Nat → Nat → Int
  | 0, _ => 0
  | count + 1, index =>
      (stepAt processData index).1 + totalFrom processData count (stepAt processData index).2

def getGradeTotalProcess (processData : List Int) (grade : Int) : Int :=
  totalFrom processData (grade - 1).toNat 1

/-- The loop of `get_lv_info`: the progress within a level, the level, the index of its step and
the step.  The progress bounds the number of turns. -/
def lvLoop (processData : List Int) : Nat → Int → Int → Nat → Int → Int × Int × Nat × Int
  | 0, now, lv, index, need => (now, lv, index, need)
  | fuel + 1, now, lv, index, need =>
      if need < now then
        match processData[index]? with
        | none => (now - need, lv + 1, index + 1, 0)
        | some step =>
            if step = -1 then
              lvLoop processData fuel (now - need) (lv + 1) index
                (processData.getD (index - 1) 0)
            else lvLoop processData fuel (now - need) (lv + 1) (index + 1) step
      else (now, lv, index, need)

/-! ## The bits of the levels -/

def decodeTaskAwardStatus (status : ℚ) : List Int :=
  (if status - 2 * ⌊status / 2⌋ = 1 then [1] else []) ++
    ⌊status / 2⌋.toNat.bitIndices.map fun i : Nat => (i : Int) + 2

def encodeTaskAwardStatus (levels : List Int) : Option ℚ :=
  levels.foldl (fun num level => addDouble num (powDouble (level - 1))) (some 0)

def setLevel (level : Int) (levels : List Int) : List Int :=
  if 0 < level then levels.orderedInsert (· ≤ ·) level else levels ++ [level]

namespace Task

def getLvInfo (s : Task) : Task :=
  let now := s.process - getGradeTotalProcess s.config.processData s.lv
  let need := s.config.processData.getD (s.processIndex - 1) 0
  let r := lvLoop s.config.processData (now.toNat + 1) now s.lv s.processIndex need
  { s with nowLvProcess := r.1, lv := r.2.1, processIndex := r.2.2.1, nowLvNeedProcess := r.2.2.2 }

/-- A task without progress, as `init` and `reset_task` make it. -/
def start (config : Config) (totalStepHongbaoNum : Int) : Task :=
  ({ config, totalStepHongbaoNum, maxProcess := getMaxProcess config.processData } :
    Task).getLvInfo

/-- The time, the number that is drawn for a level, and whether the monthly card refuses
the award now. -/
structure Env where
  now : Int := 0
  draw : Int → Int := fun _ => 1
  refused : Bool := false

/-! ## Awards -/

def pick (draw : Int) : Int → List AwardItem → List AwardItem
  | _, [] => []
  | weight, item :: items =>
      if draw ≤ weight + item.weight.getD 1 then [item]
      else pick draw (weight + item.weight.getD 1) items

def setLifetime (now : Int) (item : AwardItem) : AwardItem :=
  match item.lifetime with
  | none => item
  | some lifetime => { item with validTime := some (now + lifetime), lifetime := none }

/-- The place of the awards of a level: `some none` is an empty table. -/
def awardIndex (config : Config) (level : Int) : Option (Option Nat) :=
  if 1 ≤ level ∧ level ≤ config.awardData.length then some (some (level - 1).toNat)
  else if config.processData.getLast? = some (-1) then
    if config.awardData = [] then none else some (some (config.awardData.length - 1))
  else some none

def setAwards (s : Task) (index : Nat) (items : List AwardItem) : Task :=
  { s with config := { s.config with awardData := s.config.awardData.set index items } }

def getLvAwardData (s : Task) (level : Int) (env : Env) : Option (Option (List AwardItem) × Task) :=
  match awardIndex s.config level with
  | none => some (none, s)
  | some index =>
      let items := (index.bind (s.config.awardData[·]?)).getD []
      if s.config.randomAward then
        if (items.map fun item => item.weight.getD 1).sum < 1 then none
        else some (some ((pick (env.draw level) 0 items).map (setLifetime env.now)), s)
      else
        let items := items.map (setLifetime env.now)
        some (some items, match index with
          | none => s
          | some index => s.setAwards index items)

inductive Award where
  | code (n : Int)
  | items (items : List AwardItem)
  | none
  deriving DecidableEq, Repr

def countHongbao (s : Task) : List AwardItem → Bool × Task
  | [] => (true, s)
  | item :: items =>
      if item.assetType = "shop_gold_sum" then
        if s.totalStepHongbaoNum ≤ s.nowStepGetHongbaoNum then (false, s)
        else countHongbao { s with
          nowStepGetHongbaoNum := s.nowStepGetHongbaoNum + item.value } items
      else countHongbao s items

def pay (s : Task) (level : Int) : Task := { s with paid := s.paid ++ [⟨level, s.process⟩] }

def statusInteger (s : Task) : Prop :=
  ∃ status ∈ s.taskAwardGetStatus, status = ⌊status⌋ ∧ status < 2 ^ 63

instance (s : Task) : Decidable s.statusInteger := by
  unfold statusInteger
  infer_instance

def getAward (level : Option Int) (env : Env) (s : Task) : Option Award × Task :=
  let level := level.getD s.taskRound
  if s.lv < level then (some (.code 1003), s)
  else
    match s.taskAwardGetStatus with
    | none => (none, s)
    | some status =>
        if level ∈ decodeTaskAwardStatus status then (some (.code 1003), s)
        else
          match s.getLvAwardData level env with
          | none => (none, s)
          | some (none, s) => (some .none, s)
          | some (some items, s) =>
              let (free, s) :=
                if s.config.ownType = .stepTask then s.countHongbao items else (true, s)
              if free then
                let s := { s with
                  taskRound := s.taskRound + 1
                  taskAwardGetStatus :=
                    encodeTaskAwardStatus (setLevel level (decodeTaskAwardStatus status)) }
                -- the bits are printed here, as an integer
                if s.statusInteger then (some (.items items), s.pay level) else (none, s)
              else (some (.code 3802), s)

def getTaskAward (level : Option Int) (env : Env) (s : Task) :
    Option (Int × List AwardItem) × Task :=
  if s.config.ownType = .qysZhouka ∧ env.refused then (some (3809, []), s)
  else
    match s.getAward level env with
    | (none, s) => (none, s)
    | (some (.code n), s) => (some (n, []), s)
    | (some (.items items), s) => (some (0, items), s)
    | (some .none, s) => (some (0, []), s)

def requestGetTaskAward (env : Env) (s : Task) : Option Int × Task :=
  if s.awardLock then (some 1008, s)
  else
    match getTaskAward none env { s with awardLock := true } with
    | (none, s) => (none, s)
    | (some (result, _), s) => (some result, { s with awardLock := false })

/-- `REQUEST.get_task_award_new`, for a task and a level that are numbers -/
def requestGetTaskAwardNew (level : Int) (env : Env) (s : Task) :
    Option (Int × List (String × Int)) × Task :=
  if s.awardNewLock then (some (1008, []), s)
  else
    match getTaskAward (some level) env { s with awardNewLock := true } with
    | (none, s) => (none, s)
    | (some (result, items), s) =>
        (some (result, items.map fun item => (item.assetType, item.value)),
          { s with awardNewLock := false })

def outOfTime (s : Task) (now : Int) : Prop :=
  match s.config.validTime with
  | none => False
  | some (start, stop) => now < start ∨ stop < now

instance (s : Task) : DecidablePred s.outOfTime := fun now => by
  unfold outOfTime
  cases s.config.validTime <;> infer_instance

def addExp (exp : Int) (s : Task) : Task :=
  { s with process := min (s.process + exp) s.maxProcess }.getLvInfo

/-- `add_process`: whether the progress has changed.  The second golden pig asks for its award. -/
def addProcess (exp : Int) (env : Env) (s : Task) : Bool × Task :=
  if s.process = s.maxProcess ∨ s.outOfTime env.now then (false, s)
  else
    let s := s.addExp exp
    if s.config.ownType = .goldpigNew2 then (true, (getTaskAward none env s).2) else (true, s)

def shouldLoop (change : Bool) (env : Env) :
    List Int → List Int → List (Int × List AwardItem) → Task →
      Option (List Int × List (Int × List AwardItem)) × Task
  | [], levels, awards, s => (some (levels, awards), s)
  | key :: keys, levels, awards, s =>
      if key ∈ levels then shouldLoop change env keys levels awards s
      else if key = s.lv ∧ s.nowLvProcess < s.nowLvNeedProcess then (some (levels, awards), s)
      else
        match s.getLvAwardData key env with
        | none => (none, s)
        | some (data, s) =>
            let levels := if change then setLevel key levels else levels
            let s := if change then { s with taskRound := s.taskRound + 1 } else s
            match data with
            | none => (none, s)
            | some items => shouldLoop change env keys levels (awards ++ [(key, items)]) s

def getShouldGetAwards (change : Bool) (env : Env) (s : Task) : Option (List AwardItem) × Task :=
  match s.taskAwardGetStatus with
  | none => (none, s)
  | some status =>
      let keys := (List.range s.lv.toNat).map fun i : Nat => (i : Int) + 1
      match shouldLoop change env keys (decodeTaskAwardStatus status) [] s with
      | (none, s) => (none, s)
      | (some (levels, awards), s) =>
          let s := if change then
            { s with taskAwardGetStatus := encodeTaskAwardStatus levels } else s
          (some (awards.flatMap Prod.snd), awards.foldl (fun s award => s.pay award.1) s)

end Task

inductive Event where
  | addProcess (exp : Int) (env : Task.Env)
  | getTaskAward (env : Task.Env)
  | getTaskAwardNew (level : Int) (env : Task.Env)
  | getShouldGetAwards (change : Bool) (env : Task.Env)

def step (s : Task) : Event → Task
  | .addProcess exp env => (s.addProcess exp env).2
  | .getTaskAward env => (s.requestGetTaskAward env).2
  | .getTaskAwardNew level env => (s.requestGetTaskAwardNew level env).2
  | .getShouldGetAwards change env => (s.getShouldGetAwards change env).2

end JyQipai.Tasks
