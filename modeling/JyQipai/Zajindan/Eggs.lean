import JyQipai.Lib.Draw

/-!
# New eggs

`zajindan_room_data` makes the eggs of a game: those left over from the game before, the ones
that count for the rates, one skill, and eggs for show.  An egg is known by the id of its award,
which is its place in the award table; `kickback_award_id` is shared by all tables.
-/

namespace JyQipai.Zajindan.Room

open Lib

/-- `egg_award_type` -/
inductive AwardType where
  | normal
  | openAll
  | skyGirlCastFlower
  | bigHammer
  | free
  deriving DecidableEq, Repr

structure AwardRow where
  award : Int
  showPower : ℚ
  deriving DecidableEq, Repr

/-- A row of `config.hammer`, with the powers its `award_power` names. -/
structure HammerRow where
  baseMoney : Int
  replaceMoney : Int
  awardPower : List ℚ
  awardPowerReplaceEgg : Option (List ℚ) := none
  replaceEggReturnFactor : ℚ
  replaceEggUpgradeRate : ℚ
  deriving DecidableEq, Repr

structure SkillRow where
  skillId : Nat
  showCondition : Int
  showRate : ℚ
  deriving DecidableEq, Repr

structure Config where
  award : List AwardRow
  hammer : List HammerRow
  skill : List SkillRow

structure Egg where
  id : Nat
  isGetAward : Bool := false
  awardType : AwardType := .normal
  deriving DecidableEq, Repr

def totalEggsNum : Nat := 12

def realRateEggsNum : Nat := 6

def limitUpgradeMaxBei : Int := 40

def kickbackAwardRate : ℚ := 50

namespace Config

variable (cfg : Config)

def lastId : Nat := cfg.award.length

def ids : List Nat := List.range' 1 cfg.award.length

def awardOf (id : Nat) : Int := ((cfg.award[id - 1]?).map AwardRow.award).getD 0

def hammerOf (hammerId : Nat) : Option HammerRow :=
  if hammerId = 0 then none else cfg.hammer[hammerId - 1]?

def skillOf (key : Nat) : Option SkillRow := if key = 0 then none else cfg.skill[key - 1]?

end Config

/-! ## The eggs left over -/

/-- What `get_old_real_egg` works on: the old eggs, those carried over, how many of them are
empty or of the highest award, and the award kept back. -/
structure Carry where
  eggs : List Egg
  old : List Egg := []
  emptyNum : Nat := 0
  maxNum : Nat := 0
  kickback : Option Nat := none
  deriving DecidableEq, Repr

section Carry

variable (cfg : Config)

def Carry.count (s : Carry) (id : Nat) : Carry :=
  if id = cfg.lastId then { s with emptyNum := s.emptyNum + 1 }
  else if id = 1 then { s with maxNum := s.maxNum + 1 }
  else s

def Carry.add (s : Carry) (egg : Egg) : Carry := { s with old := s.old ++ [egg] }

def isPart (awardType : AwardType) (egg : Egg) : Bool :=
  egg.awardType = awardType && !egg.isGetAward

def groupTotal (eggs : List Egg) (egg : Egg) : Int :=
  if egg.awardType = .bigHammer then cfg.awardOf egg.id
  else ((eggs.filter (isPart egg.awardType)).map fun e => cfg.awardOf e.id).sum

def openGroup (awardType : AwardType) (eggs : List Egg) : List Egg :=
  eggs.map fun e => if isPart awardType e then { e with isGetAward := true } else e

def Config.fitting (total : Int) : Option Nat := cfg.ids.find? fun id => cfg.awardOf id ≤ total

/-- An award is kept back if nothing is yet and something is left of a total behind the award
`id`.  In the loop of the search `data` is its own row, so it takes an award that is as much as
the total less itself. -/
def keepBack (kickback : Option Nat) (total : Int) (id : Nat) : Option Nat :=
  if kickback = none ∧ 0 < total - cfg.awardOf id then
    cfg.ids.find? fun kept => cfg.awardOf kept = total - cfg.awardOf kept ∧ 2 < kept
  else kickback

def Carry.group (s : Carry) (egg : Egg) : Option Carry :=
  let total := groupTotal cfg s.eggs egg
  let s := { s with eggs := openGroup egg.awardType s.eggs }
  match cfg.ids.find? fun id => cfg.awardOf id = total with
  | some id => some ((s.add { id := id }).count cfg id)
  | none =>
      match cfg.fitting total with
      | some id =>
          let s := s.add { id := id }
          let s := { s with kickback := keepBack cfg s.kickback total id }
          some (s.count cfg id)
      | none => s.old.getLast?.map fun last => s.count cfg last.id

def Carry.round (s : Carry) (i : Nat) : Option Carry :=
  match s.eggs[i]? with
  | none => some s
  | some egg =>
      if egg.isGetAward then some s
      else if egg.awardType = .normal then
        let s := s.add egg
        let s := { s with eggs := s.eggs.set i { egg with isGetAward := true } }
        some (s.count cfg egg.id)
      else s.group cfg egg

def getOldRealEgg (eggs : List Egg) (realEggNum : Nat) (kickback : Option Nat) : Option Carry :=
  (List.range realEggNum).foldlM (Carry.round cfg)
    { eggs := eggs
      kickback := kickback }

end Carry

section Resolve

def useToResolve : Int → List Int → List Int
  | _, [] => []
  | last, a :: rest => if a = last then useToResolve last rest else a :: useToResolve a rest

/-- One level of `resolve_award`: the next part is any of `uses`; `next` continues behind it.
Behind an empty part that completes too short a list nothing else is tried. -/
def resolveLevel (value : Int) (least : Nat) (next : List Int → List Int → Nat → List (List Int))
    (now : List Int) (emptyNum : Nat) : List Int → List (List Int)
  | [] => []
  | a :: rest =>
      let vec := now ++ [a]
      if value ≤ vec.sum then
        if vec.sum = value ∧ vec.length < least then
          if a = 0 then next (a :: rest) vec (emptyNum + 1)
          else next (a :: rest) vec emptyNum ++ resolveLevel value least next now emptyNum rest
        else
          (if vec.sum = value then [vec] else []) ++
            resolveLevel value least next now emptyNum rest
      else next (a :: rest) vec emptyNum ++ resolveLevel value least next now emptyNum rest

def resolveAward (value : Int) (least : Nat) :
    Nat → List Int → List Int → Nat → List (List Int)
  | 0, _, _, _ => []
  | n + 1, uses, now, emptyNum =>
      if 2 < emptyNum then []
      else resolveLevel value least (resolveAward value least n) now emptyNum uses

variable (cfg : Config)

def getResolveAward (awardId : Nat) (value : Int) (num : Nat) : List (List Int) :=
  resolveAward value num num
    (useToResolve 0 ((cfg.ids.filter (awardId ≤ ·)).map cfg.awardOf)) [] 0

/-- An entry of one of the caches that `init_resolve_award` fills for a skill. -/
def resolveCache (skillKey : Nat) (num : Nat) (value : Int) : Option (List (List Int)) :=
  (cfg.skillOf skillKey).bind fun skill =>
    if skill.showCondition ≤ value then
      (cfg.ids.reverse.find? fun id => cfg.awardOf id = value).map fun id =>
        getResolveAward cfg id value num
    else none

def openAllCache : Int → Option (List (List Int)) :=
  resolveCache cfg 1 (totalEggsNum - realRateEggsNum + 1)

def skyGirlCache : Int → Option (List (List Int)) := resolveCache cfg 2 3

def bigHammerCache2 : Int → Option (List (List Int)) := resolveCache cfg 3 2

def bigHammerCache3 : Int → Option (List (List Int)) := resolveCache cfg 3 3

def freeCache : Int → Option (List (List Int)) := resolveCache cfg 4 2

def getRealAwardData : List Int → Draw (List Nat)
  | [] => pure []
  | a :: rest => do
      let id ← Draw.choose (cfg.ids.filter fun id => cfg.awardOf id = a)
      let ids ← getRealAwardData rest
      pure (id :: ids)

def swap {α : Type} (l : List α) (i j : Nat) : List α :=
  match l[i]?, l[j]? with
  | some a, some b => (l.set i b).set j a
  | _, _ => l

def shuffleFrom {α : Type} : Nat → Nat → List α → Draw (List α)
  | 0, _, l => pure l
  | n + 1, i, l => do
      let j ← Draw.range i (l.length - 1)
      shuffleFrom n (i + 1) (swap l i j.toNat)

def shuffle {α : Type} (l : List α) : Draw (List α) := shuffleFrom (l.length - 1) 0 l

/-- The common part of `get_open_all_resolve` and its siblings: a split, if there is one, with
`target` empty eggs where that is asked for and can be had. -/
def getResolve (cache : Option (List (List Int))) (target : Draw (Option Int)) :
    Draw (List Nat) :=
  match cache with
  | none => Draw.fail
  | some [] => pure []
  | some vecs => do
      let target ← target
      let wanted := vecs.filter fun vec => target.all fun n => (vec.count 0 : Int) = n
      let vec ← Draw.choose (if wanted = [] then vecs else wanted)
      let ids ← getRealAwardData cfg vec
      shuffle ids

def getOpenAllResolve (value : Int) (emptyNum : Nat) : Draw (List Nat) :=
  getResolve cfg (openAllCache cfg value) do
    let n ← Draw.range 3 4
    pure (some (max 0 (min 3 (n - emptyNum))))

def getSkyGirlResolve (value : Int) : Draw (List Nat) :=
  getResolve cfg (skyGirlCache cfg value) (pure none)

def bigHammerTarget (emptyNum : Nat) : Draw (Option Int) := do
  let n ← Draw.range 3 4
  if 1 < n - emptyNum then do
    let half ← Draw.unit
    pure (some (if 1 / 2 ≤ half then 1 else 0))
  else pure (some (max 0 (n - emptyNum)))

def getBigHammer2Resolve (value : Int) (emptyNum : Nat) : Draw (List Nat) :=
  getResolve cfg (bigHammerCache2 cfg value) (bigHammerTarget emptyNum)

def getBigHammer3Resolve (value : Int) (emptyNum : Nat) : Draw (List Nat) :=
  getResolve cfg (bigHammerCache3 cfg value) (bigHammerTarget emptyNum)

def getFreeResolve (value : Int) : Draw (List Nat) :=
  getResolve cfg (freeCache cfg value) (pure none)

end Resolve

/-! ## The eggs that count -/

/-- An entry of `can_skill_vec`; `awardKey` is the place of the egg. -/
structure Candidate where
  awardKey : Nat
  awardValue : Int
  skillKey : Nat
  skillId : Nat
  deriving DecidableEq, Repr

/-- What `init_award_data` works on; `have_create_award_num` is the number of eggs.  `skill` notes
the skill that is created. -/
structure Build where
  eggs : List Egg
  emptyNum : Nat
  biggestNum : Nat
  kickback : Option Nat
  skill : Option Candidate := none
  deriving DecidableEq, Repr

section Build

variable (cfg : Config)

def runningRates (total : ℚ) : List ℚ → ℚ → List ℚ
  | [], _ => []
  | power :: powers, rate =>
      (rate + power / total * 100) :: runningRates total powers (rate + power / total * 100)

def keyRates (powers : List ℚ) : List (Nat × ℚ) :=
  cfg.ids.zip (runningRates powers.sum powers 0)

def kickbackAward (kickback : Option Nat) (key : Nat) : Draw (Nat × Option Nat) :=
  match bigHammerCache2 cfg (cfg.awardOf key) with
  | some (vec :: vecs) =>
      if key ≠ cfg.lastId ∧ (kickback = none ∨ kickback = some cfg.lastId) then do
        let rand ← Draw.unit
        if rand * 100 < kickbackAwardRate then do
          let vec ← Draw.choose (vec :: vecs)
          let ids ← getRealAwardData cfg vec
          match ids with
          | id :: kept :: _ => pure (id, some kept)
          | _ => Draw.fail
        else pure (key, kickback)
      else pure (key, kickback)
  | _ => pure (key, kickback)

def realEgg (random : ℚ) (b : Build) : List (Nat × ℚ) → Draw Build
  | [] => pure b
  | (key, rate) :: keys =>
      if key = 1 ∧ b.biggestNum = 1 then realEgg random b keys
      else if key = cfg.lastId ∧ 3 ≤ b.emptyNum then
        if key = 1 then Draw.fail
        else pure { b with eggs := b.eggs ++ [{ id := key - 1 }] }
      else if random < rate ∨ key = cfg.lastId then do
        let (id, kickback) ← kickbackAward cfg b.kickback key
        pure { b with
          eggs := b.eggs ++ [{ id := id }]
          kickback := kickback
          emptyNum := if id = cfg.lastId then b.emptyNum + 1 else b.emptyNum
          biggestNum := if id = 1 then b.biggestNum + 1 else b.biggestNum }
      else realEgg random b keys

def realEggs (keys : List (Nat × ℚ)) : Nat → Build → Draw Build
  | 0, b => pure b
  | n + 1, b => do
      let random ← Draw.unit
      let b ← realEgg cfg (random * 100) b keys
      realEggs keys n b

/-- The search of `upgrade_one_egg_award` for an award that can be paid, from the last key on. -/
def upgradeKey (hammer : HammerRow) (money : ℚ) (id : Nat) : List Nat → Draw (Option Nat)
  | [] => pure none
  | key :: keys =>
      if key ≤ id - 1 ∧ cfg.awardOf id < cfg.awardOf key then do
        let least ← Draw.range 6 8
        let need := cfg.awardOf key - cfg.awardOf id
        if least ≤ need ∧
            (need * hammer.baseMoney : ℚ) < money * hammer.replaceEggReturnFactor / 100 then
          pure (some key)
        else upgradeKey hammer money id keys
      else upgradeKey hammer money id keys

def upgradeOneEggAward (hammer : HammerRow) (money : ℚ) (id : Nat) : Draw (Option (Nat × ℚ)) :=
  if 1 < id ∧ id < cfg.lastId then do
    let key ← upgradeKey cfg hammer money id cfg.ids.reverse
    pure (key.bind fun key =>
      let need : ℚ := (cfg.awardOf key - cfg.awardOf id) * hammer.baseMoney
      if 0 < need then some (key, money - need / (hammer.replaceEggReturnFactor / 100)) else none)
  else pure none

/-- The loop of `upgrade_egg_awards` from the last egg on, up to the first one upgraded. -/
def upgradeFrom (hammer : HammerRow) (money : ℚ) (eggs : List Egg) : Nat → Draw (List Egg × ℚ)
  | 0 => pure (eggs, money)
  | i + 1 =>
      match eggs[i]? with
      | none => upgradeFrom hammer money eggs i
      | some egg => do
          let upgrade ← upgradeOneEggAward cfg hammer money egg.id
          match upgrade with
          | some (id, money) => pure (eggs.set i { egg with id := id }, money)
          | none => upgradeFrom hammer money eggs i

def upgradeEggAwards (hammer : HammerRow) (money : ℚ) (eggs : List Egg) :
    Draw (List Egg × ℚ) :=
  if limitUpgradeMaxBei ≤ (eggs.map fun e => cfg.awardOf e.id).sum then pure (eggs, money)
  else upgradeFrom cfg hammer money eggs eggs.length

def tryUpgrade (hammer : HammerRow) (money : ℚ) (eggs : List Egg) : Draw (List Egg × ℚ) := do
  let random ← Draw.unit
  if random * 100 < hammer.replaceEggUpgradeRate then upgradeEggAwards cfg hammer money eggs
  else pure (eggs, money)

/-! ## The skill -/

def setPart (eggs : List Egg) (key id : Nat) (awardType : AwardType) : List Egg :=
  eggs.modify (key - 1) fun e =>
    { e with
      id := id
      awardType := awardType }

def parts (awardType : AwardType) (ids : List Nat) : List Egg :=
  ids.map fun id =>
    { id := id
      awardType := awardType }

def behind (key : Nat) : List Nat := List.range' (key + 1) (realRateEggsNum - key)

def idAt (eggs : List Egg) (key : Nat) : Option Nat := (eggs[key - 1]?).map Egg.id

/-- The first skill opens the empty eggs behind the egg too, and instead of one that is not
empty the award kept back. -/
def openAllBehind (b : Build) (key : Nat) : Build :=
  let eggs := (behind key).foldl (fun eggs i =>
    if idAt eggs i = some cfg.lastId then setPart eggs i cfg.lastId .openAll else eggs) b.eggs
  match b.kickback with
  | none => { b with eggs := eggs }
  | some kept =>
      { b with
        eggs :=
          match (behind key).find? fun i => (idAt eggs i).any (· ≠ cfg.lastId) with
          | some i => setPart eggs i kept .openAll
          | none => eggs
        kickback := none }

def splitEgg (b : Build) (c : Candidate) (awardType : AwardType) (ids : List Nat) : Draw Build :=
  match ids with
  | [] => pure b
  | id :: ids =>
      if c.awardKey = 0 then Draw.fail
      else
        let b := if awardType = .openAll then openAllBehind cfg b c.awardKey else b
        pure { b with
          eggs := setPart b.eggs c.awardKey id awardType ++ parts awardType ids
          skill := some c }

def createSkill (b : Build) (c : Candidate) : Draw Build :=
  match c.skillId with
  | 1 => getOpenAllResolve cfg c.awardValue b.emptyNum >>= splitEgg cfg b c .openAll
  | 2 => getSkyGirlResolve cfg c.awardValue >>= splitEgg cfg b c .skyGirlCastFlower
  | 3 => do
      let two ← getBigHammer2Resolve cfg c.awardValue b.emptyNum
      let three ← getBigHammer3Resolve cfg c.awardValue b.emptyNum
      if two = [] ∨ three = [] then pure b
      else if c.awardKey = 0 then Draw.fail
      else
        pure { b with
          eggs := b.eggs.modify (c.awardKey - 1) (fun e => { e with awardType := .bigHammer }) ++
            parts .bigHammer two ++ parts .bigHammer three
          skill := some c }
  | 4 => getFreeResolve cfg c.awardValue >>= splitEgg cfg b c .free
  | _ => pure b

def maxAward (eggs : List Egg) : Int × Nat :=
  eggs.zipIdx.foldl (fun best (egg, i) =>
    if best.1 < cfg.awardOf egg.id then (cfg.awardOf egg.id, i + 1) else best) (0, 0)

def candidatesOf (eggs : List Egg) (skillKey : Nat) (skill : SkillRow) : List Candidate :=
  eggs.zipIdx.filterMap fun (egg, i) =>
    if skill.showCondition ≤ cfg.awardOf egg.id then
      some ⟨i + 1, cfg.awardOf egg.id, skillKey, skill.skillId⟩
    else none

def canSkillVec (first : SkillRow) (eggs : List Egg) : List (List Candidate) :=
  let (award, key) := maxAward cfg eggs
  if first.showCondition ≤ award then [[⟨key, award, 1, first.skillId⟩]]
  else
    (cfg.skill.zipIdx.map fun (skill, i) => candidatesOf cfg eggs (i + 1) skill).filter
      (· ≠ [])

def chooseSkill (b : Build) : Draw Build := do
  let first ← Draw.ofOption (cfg.skillOf 1)
  let vec := canSkillVec cfg first b.eggs
  if vec = [] then pure b
  else do
    let group ← Draw.choose vec
    let c ← Draw.choose group
    let random ← Draw.unit
    let skill ← Draw.ofOption (cfg.skillOf c.skillKey)
    if random * 100 < skill.showRate then createSkill cfg b c else pure b

/-! ## The eggs for show -/

def ensureAwardNum (eggs : List Egg) (id : Nat) (least most : Int) : Draw (List Egg) := do
  let target ← Draw.range least most
  let now := eggs.countP fun e => e.id = id
  pure (eggs ++ List.replicate (min (totalEggsNum - eggs.length) (target.toNat - now))
    { id := id })

def showEggs (keys : List (Nat × ℚ)) : Nat → List Egg → Draw (List Egg)
  | 0, eggs => pure eggs
  | n + 1, eggs => do
      let random ← Draw.unit
      let (id, _) ← Draw.ofOption
        (keys.find? fun (key, rate) => random * 100 < rate ∨ key = cfg.lastId)
      showEggs keys n (eggs ++ [{ id := id }])

def fillEggs (b : Build) : Draw (List Egg) := do
  let eggs ← ensureAwardNum b.eggs cfg.lastId 3 4
  let eggs ← ensureAwardNum eggs 1 0 1
  showEggs cfg (keyRates cfg (cfg.award.map AwardRow.showPower)) (totalEggsNum - eggs.length)
    eggs

/-- What `init_award_data` returns and changes. -/
structure Init where
  awardData : List Egg
  replaceEggMoney : ℚ
  kickback : Option Nat
  skill : Option Candidate
  deriving DecidableEq, Repr

def countingEggs (hammer : HammerRow) (isChangeEgg : Bool) (carry : Carry) (money : ℚ) :
    Draw (Build × ℚ) := do
  let powers := if isChangeEgg then hammer.awardPowerReplaceEgg.getD hammer.awardPower
    else hammer.awardPower
  if powers.length < cfg.award.length then Draw.fail
  else do
    let b ← realEggs cfg (keyRates cfg (powers.take cfg.award.length))
      (realRateEggsNum - carry.old.length)
      { eggs := carry.old
        emptyNum := carry.emptyNum
        biggestNum := carry.maxNum
        kickback := carry.kickback }
    let (eggs, money) ← tryUpgrade cfg hammer money b.eggs
    let b ← chooseSkill cfg { b with eggs := eggs }
    pure (b, money)

def initAwardData (hammer : HammerRow) (isChangeEgg : Bool) (old : List Egg) (money : ℚ)
    (kickback : Option Nat) : Draw Init := do
  let carry ← Draw.ofOption (getOldRealEgg cfg old realRateEggsNum kickback)
  let (b, money) ← countingEggs cfg hammer isChangeEgg carry money
  let eggs ← fillEggs cfg b
  pure ⟨eggs, money, b.kickback, b.skill⟩

end Build

end JyQipai.Zajindan.Room
