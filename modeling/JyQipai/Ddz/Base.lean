import Mathlib

/-!
# Cards and plays of the Dou Dizhu games

The tables and helper functions of `nor_ddz_base_lib.lua`.  Card ids are the
numbers 1 to 54 and ranks the numbers 3 to 17 (16 and 17 are the two jokers).
A Lua table indexed by ranks or seats is a function on `Nat`; a table that
maps card ids to `true` is a `Finset`.  A missing entry of a table of numbers
reads as 0 where the source tests only for its presence, and as `none` where a
read of `nil` raises an error.
-/

namespace JyQipai.Ddz

/-- The game types `nor_ddz_nor`, `nor_ddz_lz`, `nor_ddz_er`, `nor_ddz_boom`. -/
inductive GameType where
  | nor
  | lz
  | er
  | boom
  deriving DecidableEq, Repr

def GameType.seatCount : GameType → Nat
  | .er => 2
  | _ => 3

/-! ## Card tables -/

def paiMapTable : List Nat :=
  [3, 3, 3, 3, 4, 4, 4, 4, 5, 5, 5, 5, 6, 6, 6, 6, 7, 7, 7, 7, 8, 8, 8, 8,
   9, 9, 9, 9, 10, 10, 10, 10, 11, 11, 11, 11, 12, 12, 12, 12, 13, 13, 13, 13,
   14, 14, 14, 14, 15, 15, 15, 15, 16, 17]

def paiMap (id : Nat) : Nat := (0 :: paiMapTable).getD id 0

def paiToStartIdMap (type : Nat) : Nat :=
  [0, 0, 0, 1, 5, 9, 13, 17, 21, 25, 29, 33, 37, 41, 45, 49, 53, 54].getD type 0

def paiToEndIdMap (type : Nat) : Nat :=
  [0, 0, 0, 4, 8, 12, 16, 20, 24, 28, 32, 36, 40, 44, 48, 52, 53, 54].getD type 0

def idsOfType (type : Nat) : List Nat :=
  List.range' (paiToStartIdMap type)
    (paiToEndIdMap type + 1 - paiToStartIdMap type)

def keyPaiNum (type : Nat) : Nat :=
  [0, 1, 2, 3, 3, 3, 1, 2, 4, 4, 3, 3, 3, 4, 2, 4].getD type 0

def OtherType.jdz : Nat := 100
def OtherType.jiabei : Nat := 101
def OtherType.erQdz : Nat := 102
def OtherType.mldKp : Nat := 103
def OtherType.mldZhua : Nat := 104
def OtherType.mldBz : Nat := 105
def OtherType.mldDao : Nat := 106
def OtherType.mldBd : Nat := 107
def OtherType.mldLa : Nat := 108
def OtherType.mldBl : Nat := 109
def OtherType.mldMen : Nat := 110

def kaiguanNor (type : Nat) : Bool := type ≤ 15

def getPaiTypeHash (pai : Finset Nat) (type : Nat) : Nat :=
  (pai.filter (fun id => paiMap id = type)).card

/-! ## Lists of played cards -/

/-- The `cp_list` of the protocol: ordinary cards by id, and for each wildcard
the id of the card it stands for. -/
structure CpList where
  nor : Option (List Nat) := none
  lz : Option (List Nat) := none
  deriving DecidableEq, Repr

def CpList.norIds (cp : CpList) : List Nat := cp.nor.getD []

def CpList.lzIds (cp : CpList) : List Nat := cp.lz.getD []

def mergeNorAndLz (cp : Option CpList) : Option (List Nat) :=
  match cp with
  | none => some []
  | some cp =>
      if cp.lzIds.any (fun v => v < 1 || 52 < v) then none
      else some (cp.norIds ++ cp.lzIds)

/-- A seat's cards as `deduct_pai_by_cp_list` sees them.  Only the agents keep
the rank counts `hash`. -/
structure PaiData where
  pai : Finset Nat
  hash : Option (Nat → Int) := none

def deductHash (hash : Option (Nat → Int)) (type : Nat) : Option (Nat → Int) :=
  hash.map fun h => Function.update h type (h type - 1)

def deductNor (data : PaiData) (nor : List Nat) : PaiData :=
  nor.foldl (fun d id =>
    { pai := d.pai.erase id, hash := deductHash d.hash (paiMap id) }) data

def deductLz (laizhiType : Nat) : List Nat → Nat → PaiData → PaiData
  | [], _, data => data
  | i :: ids, num, data =>
      if num < 1 then data
      else if i ∈ data.pai then
        deductLz laizhiType ids (num - 1)
          { pai := data.pai.erase i, hash := deductHash data.hash laizhiType }
      else deductLz laizhiType ids num data

/-- `deduct_pai_by_cp_list`.  The Boolean says that the function returned: with
a wildcard list and no wildcard rank, the bounds of the numeric `for` are `nil`
and Lua raises an error after the ordinary cards have been removed. -/
def deductPaiByCpList (data : PaiData) (cp : Option CpList)
    (laizhiType : Option Nat) : PaiData × Bool :=
  match cp with
  | none => (data, true)
  | some cp =>
      let data := deductNor data cp.norIds
      match cp.lz with
      | none => (data, true)
      | some lz =>
          match laizhiType with
          | none => (data, false)
          | some type => (deductLz type (idsOfType type) lz.length data, true)

/-! ## The action list -/

/-- One entry of `act_list`: a play of type 0 to 15 or an action of type 100
and above. -/
structure Act where
  type : Nat
  p : Nat
  rate : Nat := 0
  pai : List Nat := []
  laziNum : Nat := 0
  cpList : Option CpList := none
  mergeCpList : List Nat := []
  deriving DecidableEq, Repr

def Act.isChupai (act : Act) : Bool := 0 < act.type && act.type < 16

def isMustChupai (gameType : GameType) (actList : List Act) : Bool :=
  match gameType, actList.reverse with
  | _, [] => true
  | .er, last :: _ => 100 ≤ last.type || last.type == 0
  | _, [last] => 100 ≤ last.type
  | _, last :: prev :: _ =>
      100 ≤ last.type || (last.type == 0 && prev.type == 0)

/-- The backward loop `while _pos > _limit`: the position of the last play
above `limit`, and `limit` if there is none. -/
def searchChupai (actList : List Act) (limit : Nat) : Nat → Nat
  | 0 => 0
  | pos + 1 =>
      if pos + 1 ≤ limit then pos + 1
      else if (actList[pos]?).any Act.isChupai then pos + 1
      else searchChupai actList limit pos

def getRealChupaiPosByAct (gameType : GameType) (actList : List Act) :
    Option Nat :=
  let limit := match gameType with
    | .er => actList.length - 1
    | _ => actList.length - 2
  let pos := searchChupai actList limit actList.length
  if pos = limit then none else some pos

/-- The play found by the backward search of `check_chupai_safe`. -/
def lastChupai (actList : List Act) : Option Act :=
  actList.reverse.find? Act.isChupai

def keyLarger : List Nat → List Nat → Option Bool
  | key :: _, lastKey :: _ => some (lastKey < key)
  | _, _ => none

def runLarger : List Nat → List Nat → Option Bool
  | head :: tail :: _, lastHead :: lastTail :: _ =>
      some ((tail : Int) - head = lastTail - lastHead ∧ lastHead < head)
  | _, _ => none

/-- `check_chupai_safe`; `none` is a Lua error (the search ran off the list, or
a key card is missing). -/
def checkChupaiSafe (gameType : GameType) (actList : List Act) (type : Nat)
    (pai : List Nat) : Option Bool :=
  let isMust := isMustChupai gameType actList
  if type = 0 then some (!isMust)
  else if isMust then some true
  else
    match lastChupai actList with
    | none => none
    | some last =>
        if last.type = 14 then some false
        else if type = last.type then
          if type < 6 ∨ type = 13 ∨ type = 15 ∨ type = 8 ∨ type = 9 then
            keyLarger pai last.pai
          else runLarger pai last.pai
        else if last.type ≠ 13 ∨ type = 15 then some true
        else if type = 13 ∨ type = 14 then some true
        else some false

def isMustZhua (map : Nat → Int) : Bool :=
  let wang : Int := (if map 16 = 1 then 1 else 0) + (if map 17 = 1 then 1 else 0)
  let two := map 15
  let zhadan : Int := ((List.range' 3 15).filter (fun r => map r = 4)).length
  wang = 2 || wang + two > 2 || zhadan > 1 || zhadan + wang + two > 2

end JyQipai.Ddz
