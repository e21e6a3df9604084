import JyQipai.Lib.Nearest
import JyQipai.Lottery.Expression

/-!
# The lottery of the match-3 game

`xiaoxiaole_lottery_center_service` draws a rate, looks for a board with that rate in
`lottery_xc_map`, and announces a rate.  All rates are counted in tenths.  A draw that raises
an error has no result.
-/

namespace JyQipai.Xiaoxiaole

open Lib
open Lottery (Draws)

abbrev Board := String

/-- A row of `base` or of a `fanjiang` table of `gl_config`; `load_gl_config` has made its
power a whole number. -/
structure GlRow where
  no : Int
  rate : Option Int
  power : Int
  deriving DecidableEq, Repr

structure LuckyRate where
  lian4 : Int
  lian4Min : Int
  lian4Max : Int
  lian4Power : Int
  lian5 : Int
  lian5Min : Int
  lian5Max : Int
  lian5Power : Int
  deriving DecidableEq, Repr

structure GlConfig where
  base : List GlRow
  fanjiang : Int → Option (List GlRow) := fun _ => none
  luckyRate : Option (List (Int × LuckyRate)) := none

/-- `lottery_xc_map` -/
structure XcMap where
  boards : Int → Option (List Board)
  bounded : ∀ k l, boards k = some l → 0 ≤ k ∧ k ≤ 10000
  filled : ∀ k l, boards k = some l → l ≠ []
  someKey : ∃ k, boards k ≠ none

def XcMap.keys (m : XcMap) : Set Int := {k | (m.boards k).isSome = true}

inductive LianType where
  | lian1
  | lian2
  | lian3
  | lian4
  | lian5
  deriving DecidableEq, Repr

structure Lian where
  lianType : LianType
  lockyItem : Int
  lianRate : Int
  power : Int
  deriving DecidableEq, Repr

structure Lucky where
  lianType : LianType
  realLianNum : Int
  lianNum : Int
  luckyItem : Option Int := none
  deriving DecidableEq, Repr

structure Kaijiang where
  xcMap : Board
  realAwardRate : Int
  awardRate : Int
  xcMapRate : Int
  lianLockyAwardRate : Int
  luckyData : List Lucky
  deriving DecidableEq, Repr

/-! ## Drawing a rate -/

def pick {α : Type} (power : α → Int) (rand : Int) : List α → Int → Option α
  | [], _ => none
  | row :: rows, now =>
      if rand ≤ now + power row then some row else pick power rand rows (now + power row)

def drawRow {α : Type} (power : α → Int) (rows : List α) (draws : Draws) (k : Nat) :
    Option (Option α × Nat) :=
  (draws.random k 1 (rows.map power).sum).map fun rand => (pick power rand rows 0, k + 1)

def getGl (cfg : Option GlConfig) (draws : Draws) (k : Nat) : Option (Int × Nat) :=
  match cfg with
  | none => some (0, k)
  | some cfg =>
      (drawRow GlRow.power cfg.base draws k).bind fun (row, k) =>
        match cfg.fanjiang ((row.map GlRow.no).getD 0) with
        | none => some (0, k)
        | some rows =>
            (drawRow GlRow.power rows draws k).map fun (row, k) =>
              ((row.bind GlRow.rate).getD 0, k)

def LuckyRate.lians (real : Int) (key : Int) (d : LuckyRate) : List Lian :=
  (if d.lian4Min ≤ real ∧ real ≤ d.lian4Max then
    [⟨.lian4, key, min d.lian4 d.lian4Min, d.lian4Power⟩] else []) ++
  if d.lian5Min ≤ real ∧ real ≤ d.lian5Max then
    [⟨.lian5, key, min d.lian5 d.lian5Min, d.lian5Power⟩] else []

def dealLian4Lian5 (cfg : Option GlConfig) (real : Int) (draws : Draws) (k : Nat) :
    Option Lian × Nat :=
  let lianData := ((cfg.bind GlConfig.luckyRate).getD []).flatMap fun (key, d) =>
    d.lians real key
  if lianData = [] then (none, k)
  else (lianData[draws k % lianData.length]?.filter fun l =>
    1 + (draws (k + 1) % 100 : Nat) ≤ l.power, k + 2)

/-! ## Looking for a board -/

/-- The loop of `get_xc_map`: first downwards, and from `awardRate` upwards again where zero
has been reached. -/
def searchKey (m : XcMap) (awardRate : Int) : Nat → Int → Int → Option Int
  | 0, _, _ => none
  | n + 1, dir, now =>
      if (m.boards (now + dir)).isSome then some (now + dir)
      else if now + dir ≤ 0 then searchKey m awardRate n 1 awardRate
      else searchKey m awardRate n dir (now + dir)

def findKey (m : XcMap) (awardRate : Int) : Option Int :=
  if (m.boards awardRate).isSome then some awardRate
  else searchKey m awardRate 10000 (-1) awardRate

def getXcMap (map : Option XcMap) (rate : Int) (draws : Draws) (k : Nat) :
    Option Board × Int × Nat :=
  match map with
  | none => (none, rate, k)
  | some m =>
      match findKey m rate with
      | none => (none, rate, k)
      | some key =>
          let boards := (m.boards key).getD []
          (boards[draws k % boards.length]?, key, k + 1)

/-! ## The lucky items -/

structure Lian3Row where
  lian3Num : Nat
  weight : Int
  trueRate : Int

def lian3Lucky : List Lian3Row := [⟨0, 80, 70⟩, ⟨1, 10, 70⟩, ⟨2, 10, 70⟩]

def lian3RealLucky : List (Int × Int) := [(4, 60), (5, 40)]

def lian3FakeLucky : List (Int × Int) := [(2, 20), (4, 60), (5, 20)]

def lian45Lian : Int := 30

def maxLuckyNum : Int := 6

def getLian3Lucky (cfg : List (Int × Int)) (draws : Draws) (k : Nat) : Option (Int × Nat) :=
  (drawRow Prod.snd cfg draws k).map fun (row, k) => ((row.map Prod.fst).getD 0, k)

def lian3Round (trueRate totalLocky : Int) (draws : Draws) (k : Nat) :
    Option (List Lucky × Int × Nat) :=
  (draws.random k 1 100).bind fun rand =>
    if rand < trueRate then
      (getLian3Lucky lian3RealLucky draws (k + 1)).map fun (num, k) =>
        let lianNum := min totalLocky num
        (if 3 ≤ lianNum then [⟨.lian3, 3, lianNum, none⟩] else [],
          max 0 (totalLocky - lianNum), k)
    else
      (getLian3Lucky lian3FakeLucky draws (k + 1)).map fun (num, k) =>
        let lianNum := min totalLocky num
        (if 3 ≤ lianNum then [⟨.lian3, 0, lianNum, none⟩]
          else if lianNum = 2 then [⟨.lian2, 0, lianNum, none⟩] else [],
          max 0 (totalLocky - lianNum), k)

def lian3Rounds (trueRate : Int) (draws : Draws) :
    Nat → Int → Nat → Option (List Lucky × Int)
  | 0, totalLocky, _ => some ([], totalLocky)
  | n + 1, totalLocky, k =>
      (lian3Round trueRate totalLocky draws k).bind fun (lucky, totalLocky, k) =>
        (lian3Rounds trueRate draws n totalLocky k).map fun (rest, left) =>
          (lucky ++ rest, left)

variable (F : NumFormat)

def dealBaseXcMap (xcMap : Option Board) (lianType : LianType) (lockyItem : Option Int)
    (draws : Draws) (k : Nat) : Option (List Lucky) :=
  xcMap.bind fun board =>
    let hangNum : Nat := board.utf8ByteSize / 8
    (draws.random k ⌊F.mul hangNum (F.rnd (3 / 10))⌋ ⌊F.mul hangNum (F.rnd (7 / 10))⌋).bind
      fun locky =>
        let totalLocky := if maxLuckyNum < locky then maxLuckyNum else locky
        let fill := fun (lucky : List Lucky) (left : Int) =>
          lucky ++ List.replicate left.toNat ⟨.lian1, 0, 1, none⟩
        match lianType, lockyItem with
        | .lian3, _ =>
            (drawRow Lian3Row.weight lian3Lucky draws (k + 1)).bind fun (row, k) =>
              (lian3Rounds ((row.map Lian3Row.trueRate).getD 0) draws
                ((row.map Lian3Row.lian3Num).getD 0) totalLocky k).map fun (lucky, left) =>
                  fill lucky left
        | .lian4, some item =>
            (draws.random (k + 1) 1 100).map fun rand =>
              let lianNum := if rand < lian45Lian then 5 else 4
              fill [⟨.lian4, 4, lianNum, some item⟩] (max 0 (totalLocky - lianNum))
        | .lian5, some item =>
            some (fill [⟨.lian5, 5, 5, some item⟩] (max 0 (totalLocky - 5)))
        | _, _ => some (fill [] totalLocky)

/-! ## The draw -/

def announce (real : Int) (found : Option Board × Int × Nat) (lianLockyAwardRate : Int)
    (lianType : LianType) (lockyItem : Option Int) (draws : Draws) : Option Kaijiang :=
  match found with
  | (xcMap, xcMapRate, k) =>
      xcMap.bind fun board =>
        (dealBaseXcMap F xcMap lianType lockyItem draws k).map fun luckyData =>
          { xcMap := board
            realAwardRate := real
            awardRate := xcMapRate + lianLockyAwardRate
            xcMapRate := xcMapRate
            lianLockyAwardRate := lianLockyAwardRate
            luckyData := luckyData }

def lotteryKaijiang (map : Option XcMap) (cfg : Option GlConfig) (draws : Draws) :
    Option Kaijiang :=
  (getGl cfg draws 0).bind fun (real, k) =>
    match dealLian4Lian5 cfg real draws k with
    | (some lian, k) =>
        match getXcMap map (max 0 (real - lian.lianRate)) draws k with
        | (some board, rate, k) =>
            announce F real (some board, rate, k) (max 0 (real - rate)) lian.lianType
              (some lian.lockyItem) draws
        | (none, _, k) => announce F real (getXcMap map real draws k) 0 .lian3 none draws
    | (none, k) => announce F real (getXcMap map real draws k) 0 .lian3 none draws

end JyQipai.Xiaoxiaole
