import JyQipai.Lib.Shuffle
import JyQipai.Mj.Room

/-!
# The hand of a lucky seat

`adjust_nice_pai` makes a new hand from the tiles of a hand and of the pool: with some
probability it picks kongs, triplets, pairs and runs of the suit with the most tiles, then it
fills the hand suit by suit.  The new pool is what is left.
-/

namespace JyQipai.Mj

open JyQipai.Lib

/-- The order in which `pairs` meets the keys of a table. -/
structure PairsOrder where
  order : List Nat → List Nat
  perm : ∀ keys, (order keys).Perm keys

namespace NicePai

/-! ## Probabilities -/

def oneFlowerRate : ℚ := 10

def onePengRate : ℚ := 20

def shunziRate (num : Nat) : Option ℚ :=
  if num = 0 then none
  else [100, 50, 10, 6, 5, 4, 3, 2, 1, 5 / 10, 3 / 10, 2 / 10, 1 / 10][num - 1]?

def oneGangRate3 : ℚ := 20

def oneGangRate4 : ℚ := 10

def addFanRate (index : Nat) : Option ℚ :=
  if index = 0 then none else [40, 30, 20, 10, 1, 0][index - 1]?

/-! ## The tiles -/

def size (shouPai : PaiMap) : Int := (paiIds.map shouPai.num).sum

def totalPaiVec (shouPai : PaiMap) (paiPool : List Nat) : PaiMap := fun pai =>
  if (shouPai pai).isSome ∨ pai ∈ paiPool then some (shouPai.num pai + paiPool.count pai)
  else none

def totalFlowerVec (shouPai : PaiMap) (paiPool : List Nat) (color : Nat) : Int :=
  paiPool.countP (fun pai => flower pai = color) +
    ((paiIds.filter fun pai => flower pai = color).map shouPai.num).sum

def maxPaiFlower (shouPai : PaiMap) (paiPool : List Nat) : Nat :=
  ([1, 2, 3].foldl (fun (r : Nat × Int) color =>
    if totalFlowerVec shouPai paiPool color > r.2 then
      (color, totalFlowerVec shouPai paiPool color)
    else r) (0, 0)).1

section Tables

variable (order : PairsOrder) (total : PaiMap)

def pais : List Nat := order.order (paiIds.filter fun pai => (total pai).isSome)

def runFrom : List Nat → Nat × List Nat → Nat × List Nat
  | [], r => r
  | j :: js, (num, deal) =>
      if (total j).isSome ∧ j ∉ deal then runFrom js (num + 1, j :: deal)
      else if (total j).isNone then (num, deal)
      else runFrom js (num, deal)

def shunzis : List (Nat × Nat) :=
  ((List.range' 11 29).foldl (fun (r : List (Nat × Nat) × List Nat) i =>
    if i = 20 ∨ i = 30 then r
    else if (total i).isSome ∧ i ∉ r.2 then
      let run := runFrom total (List.range' (i + 1) (39 - i)) (1, i :: r.2)
      (r.1 ++ [(i, run.1)], run.2)
    else r) ([], [])).1

def canShunzi (color : Nat) : List (Nat × Nat) :=
  (order.order (((shunzis total).map Prod.fst).filter fun start => flower start = color)).filterMap
    fun start => (shunzis total).find? fun run => run.1 = start

/-- `flower_can_peng_vec`, `flower_can_gang3_vec` and `flower_can_gang4_vec` -/
def canPick (test : Int → Bool) (color : Nat) : List Nat :=
  (pais order total).filter fun pai => flower pai = color ∧ test (total.num pai)

end Tables

/-! ## Picking -/

structure Pitch where
  pitchPaiNum : Int
  totalPaiForPitch : PaiMap
  pitchedPaiVec : PaiMap
  addFanIndex : Nat

def pitchOne (p : Pitch) (data : Nat × Int) : Pitch :=
  { p with
    totalPaiForPitch := Function.update p.totalPaiForPitch data.1
      ((p.totalPaiForPitch data.1).map (· - data.2))
    pitchedPaiVec := Function.update p.pitchedPaiVec data.1
      (some (p.pitchedPaiVec.num data.1 + data.2))
    pitchPaiNum := p.pitchPaiNum + data.2 }

section Pitching

variable (order : PairsOrder) (total : PaiMap) (shouPaiNum : Int)

def addPitchPai (pitchData : List (Nat × Int)) (p : Pitch) : Bool × Pitch :=
  if ∃ data ∈ pitchData, (p.totalPaiForPitch data.1).all (· < data.2) then (false, p)
  else if p.pitchPaiNum + (pitchData.map Prod.snd).sum > shouPaiNum then (false, p)
  else (true, pitchData.foldl pitchOne p)

def isDealAddFan (p : Pitch) : Draw Bool := do
  let random ← Draw.unit
  let rate ← Draw.ofOption (addFanRate p.addFanIndex)
  pure (random * 100 ≤ rate)

def pitchOneGang (num : Int) (rate : ℚ) (pai : Nat) (p : Pitch) : Draw Pitch := do
  let deal ← isDealAddFan p
  if deal then do
    let random ← Draw.unit
    if random * 100 ≤ rate then
      let r := addPitchPai shouPaiNum [(pai, num)] p
      pure (if r.1 then { r.2 with addFanIndex := r.2.addFanIndex + 1 } else r.2)
    else pure p
  else pure p

def pitchGang (num : Int) (rate : ℚ) : List Nat → Pitch → Draw Pitch
  | [], p => pure p
  | pai :: pais, p => do
      let p ← pitchOneGang shouPaiNum num rate pai p
      pitchGang num rate pais p

def pitchPeng : List Nat → Pitch → Draw Pitch
  | [], p => pure p
  | pai :: pais, p => do
      let random ← Draw.unit
      if random * 100 ≤ onePengRate then
        pitchPeng pais (addPitchPai shouPaiNum [(pai, 2)] p).2
      else pure p

def flowerPai (color : Nat) (p : Pitch) : List Nat :=
  (List.range' (color * 10 + 1) 9).flatMap fun pai =>
    List.replicate (p.totalPaiForPitch.num pai).toNat pai

def pitchMust (color : Nat) (p : Pitch) : Draw Pitch := do
  let totalFlowerPai ← Draw.shuffled (flowerPai color p)
  let pitchVec := (totalFlowerPai.take (shouPaiNum - p.pitchPaiNum).toNat).map fun pai => (pai, 1)
  pure (addPitchPai shouPaiNum pitchVec p).2

def pitchOneShunzi (pitchNum startPai shunziNum : Nat) (p : Pitch) : Draw Pitch :=
  if pitchNum > 1 ∧ shunziNum ≥ pitchNum then do
    let random ← Draw.unit
    let rate ← Draw.ofOption (shunziRate pitchNum)
    if random * 100 ≤ rate then do
      let offset ← (if shunziNum > pitchNum then Draw.range 1 (shunziNum - pitchNum) else pure 0)
      let pitchVec := (List.range' (startPai + offset.toNat) pitchNum).map fun pai => (pai, 1)
      pure (addPitchPai shouPaiNum pitchVec p).2
    else pure p
  else pure p

def pitchShunzi (pitchNum : Nat) : List (Nat × Nat) → Pitch → Draw Pitch
  | [], p => pure p
  | run :: runs, p => do
      let p ← pitchOneShunzi shouPaiNum pitchNum run.1 run.2 p
      pitchShunzi pitchNum runs p

/-- The part of `pitch_pai` that picks tiles that are alike, or any. -/
def pitchSame (color pitchNum : Nat) (isMust : Bool) (p : Pitch) : Draw Pitch :=
  if isMust = false ∧ pitchNum = 4 ∧ canPick order total (· = 4) color ≠ [] then
    pitchGang shouPaiNum 4 oneGangRate4 (canPick order total (· = 4) color) p
  else if isMust = false ∧ pitchNum = 3 then
    pitchGang shouPaiNum 3 oneGangRate3 (canPick order total (· = 3) color) p
  else if isMust = false ∧ pitchNum = 2 then
    pitchPeng shouPaiNum (canPick order total (2 ≤ ·) color) p
  else if pitchNum = 1 ∧ isMust then pitchMust shouPaiNum color p
  else pure p

def pitchPai (color : Nat) : Nat → Bool → Pitch → Draw Pitch
  | 0, _, p => pure p
  | pitchNum + 1, isMust, p =>
      if shouPaiNum - p.pitchPaiNum < (pitchNum + 1 : Nat) then pure p
      else do
        let p ← pitchSame order total shouPaiNum color (pitchNum + 1) isMust p
        let p ← (if isMust then pure p
          else pitchShunzi shouPaiNum (pitchNum + 1) (canShunzi order total color) p)
        pitchPai color pitchNum isMust p

def pitchRest (color : Nat) (p : Pitch) : Draw Pitch :=
  pitchPai order total shouPaiNum color (shouPaiNum - p.pitchPaiNum).toNat true p

def pitchFirst (color : Nat) (p : Pitch) : Draw Pitch := do
  let p ← pitchPai order total shouPaiNum color shouPaiNum.toNat false p
  let random ← Draw.unit
  let fill ← (if p.pitchPaiNum < shouPaiNum then do
      let deal ← isDealAddFan p
      pure (deal && decide (random * 100 < oneFlowerRate))
    else pure false)
  if fill then pitchRest order total shouPaiNum color p else pure p

def nextFlower (color : Nat) : Nat := if color + 1 > 3 then 1 else color + 1

def pitchAll (color : Nat) (p : Pitch) : Draw Pitch := do
  let p ← (if p.pitchPaiNum = shouPaiNum then pure p
    else pitchFirst order total shouPaiNum color p)
  let p ← (if p.pitchPaiNum = shouPaiNum then pure p
    else pitchRest order total shouPaiNum (nextFlower color) p)
  if p.pitchPaiNum = shouPaiNum then pure p
  else pitchRest order total shouPaiNum (nextFlower (nextFlower color)) p

end Pitching

/-- `adjust_nice_pai`: the new hand and the new pool.  Its two errors are failures.
`total_pai_for_pitch` is a copy, which `pairs` may meet in an order of its own. -/
def adjustNicePai (order orderForPitch : PairsOrder) (shouPai : PaiMap) (paiPool : List Nat) :
    Draw (PaiMap × List Nat) := do
  let total := totalPaiVec shouPai paiPool
  let p ← pitchAll order total (size shouPai) (maxPaiFlower shouPai paiPool)
    { pitchPaiNum := 0, totalPaiForPitch := total, pitchedPaiVec := fun _ => none,
      addFanIndex := 1 }
  let endPaiPool ← Draw.shuffled ((pais orderForPitch total).flatMap fun pai =>
    List.replicate (p.totalPaiForPitch.num pai).toNat pai)
  if endPaiPool.length ≠ paiPool.length then Draw.fail
  else if (pais order total).all
      (fun pai => p.totalPaiForPitch.num pai + p.pitchedPaiVec.num pai = total.num pai) then
    pure (p.pitchedPaiVec, endPaiPool)
  else Draw.fail

end NicePai

end JyQipai.Mj
