import Mathlib.Algebra.GroupWithZero.Nat
import Mathlib.Data.List.ProdSigma
import Mathlib.Logic.Function.Basic

/-!
# The board of the match-3 game

`xiaoxiaole_lib` keeps a board in `xc_moreInfo_map`, whose rows are counted from 1 upwards, and
its columns from 1 to 8.  Only the first eight rows are visible.  Records are shared between the
tables of the source; here a record is found by its number.  An error of the source has no
result.
-/

namespace JyQipai.Xiaoxiaole.Match

def wideMax : Nat := 8
def highMax : Nat := 8
def xcLimit : Nat := 3
def xcLimitMax : Nat := 8
def luckyType : Nat := 6

/-- A record of `xc_moreInfo_map`; `o_x` and `o_y` are where it stood first. -/
structure Item where
  type : Nat
  no : Nat
  o_x : Nat
  o_y : Nat
  deriving DecidableEq, Repr

/-- The place `xc_moreInfo_map[x][y]` -/
abbrev Point := Nat × Nat

scoped instance lawfulPoint : LawfulBEq Point := inferInstance

abbrev MoreInfoMap := Point → Option Item

def isType (map : MoreInfoMap) (xc_type : Nat) (p : Point) : Bool :=
  (map p).any fun it => it.type == xc_type

def setType (map : MoreInfoMap) (p : Point) (type : Nat) : MoreInfoMap :=
  Function.update map p ((map p).map fun it => { it with type })

def xcMap2MoreInfo (xc_map : List (List Nat)) : MoreInfoMap := fun p =>
  if 1 ≤ p.1 ∧ 1 ≤ p.2 ∧ p.2 ≤ wideMax then
    (xc_map[p.1 - 1]?.bind fun row => row[p.2 - 1]?).map fun type =>
      { type
        no := (p.1 - 1) * wideMax + p.2
        o_x := p.1
        o_y := p.2 }
  else none

/-! ## `check_can_xc_by_point` -/

inductive HighOrWide where
  | one
  | two
  deriving DecidableEq, Repr

namespace HighOrWide

def turn : HighOrWide → HighOrWide
  | one => two
  | two => one

def coord : HighOrWide → Point → Nat
  | one, p => p.1
  | two, p => p.2

def place : HighOrWide → Point → Nat → Point
  | one, p, i => (i, p.2)
  | two, p, i => (p.1, i)

def max : HighOrWide → Nat
  | one => highMax
  | two => wideMax

end HighOrWide

def startP (p : Nat → Bool) : Nat → Nat
  | 0 => 1
  | start_p + 1 => if p (start_p + 1) then startP p start_p else start_p + 2

def endP (p : Nat → Bool) : (rest : Nat) → Nat → Nat
  | 0, end_p => end_p - 1
  | rest + 1, end_p => if p end_p then endP p rest (end_p + 1) else end_p - 1

/-- The row from `start_p` to `end_p` that is removed, if it is long enough -/
def xcLine (map : MoreInfoMap) (xc_type : Nat) (high_or_wide : HighOrWide) (p : Point) :
    List Point :=
  let same := fun i => isType map xc_type (high_or_wide.place p i)
  let start_p := startP same (high_or_wide.coord p)
  let end_p := endP same (high_or_wide.max + 1 - high_or_wide.coord p) (high_or_wide.coord p)
  if end_p + 1 - start_p ≥ xcLimit then
    (List.range' start_p (end_p + 1 - start_p)).map (high_or_wide.place p)
  else []

/-- What the calls of `check_can_xc_by_point` share -/
structure Check where
  map : MoreInfoMap
  hash_map : Point → Bool
  xc_vec : List Nat

/-- The body of the loops of `check_can_xc_by_point`; `check` is the call in it. -/
def checkPoint (is_clear : Bool) (check : Point → Check → Option Check) (s : Check) (p : Point) :
    Option Check :=
  if s.hash_map p then some s
  else do
    let it ← s.map p
    let s ← check p
      { s with
        hash_map := Function.update s.hash_map p true
        xc_vec := s.xc_vec ++ [it.no] }
    return if is_clear then { s with map := setType s.map p 0 } else s

def checkLine (xc_type : Nat) (is_clear : Bool) :
    (fuel : Nat) → HighOrWide → Point → Check → Option Check
  | 0, _, _, _ => none
  | fuel + 1, high_or_wide, p, s =>
      (xcLine s.map xc_type high_or_wide p).foldlM
        (checkPoint is_clear (checkLine xc_type is_clear fuel high_or_wide.turn)) s

def checkCanXcByPoint (fuel : Nat) (map : MoreInfoMap) (p : Point) (xc_type : Nat)
    (xc_vec : List Nat) (is_clear : Bool) : Option Check := do
  let s ← checkLine xc_type is_clear fuel .one p
    { map
      hash_map := fun _ => false
      xc_vec }
  if s.hash_map p then some s else checkLine xc_type is_clear fuel .two p s

/-! ## `xc_tasuo_by_moreInfoMap` -/

/-- The loop over one column of a board of `pos + rest - 1` rows -/
def tasuoColumn (y : Nat) : (rest pos k : Nat) → MoreInfoMap → MoreInfoMap
  | 0, _, _, map => map
  | rest + 1, pos, k, map =>
      match map (pos, y) with
      | none => map
      | some it =>
          if it.type = 0 then tasuoColumn y rest (pos + 1) k (Function.update map (pos, y) none)
          else if pos ≠ k then
            tasuoColumn y rest (pos + 1) (k + 1)
              (Function.update (Function.update map (k, y) (some it)) (pos, y) none)
          else tasuoColumn y rest (pos + 1) (k + 1) map

def visible : List Point := (List.range' 1 highMax).product (List.range' 1 wideMax)

def xcTasuoByMoreInfoMap (high : Nat) (map : MoreInfoMap) : MoreInfoMap × Bool :=
  let map := (List.range' 1 wideMax).foldl (fun map y => tasuoColumn y high 1 1 map) map
  (map, visible.all fun p => (map p).isSome)

/-! ## `get_rate` -/

def baseRateCfg : List (List Nat) :=
  [[1, 2, 5, 10, 15, 50],
   [2, 5, 10, 30, 60, 100],
   [5, 10, 20, 50, 100, 200],
   [10, 30, 60, 120, 250, 500],
   [40, 100, 300, 600, 800, 1500]]

def getRate (type count : Nat) : Nat :=
  if count < xcLimit ∨ type < 1 ∨ type > 5 then 0
  else ((baseRateCfg.getD (type - 1) []).getD (min count xcLimitMax - xcLimit) 0)

/-- An entry of `xc_num_map`, which stands there under the length of its list -/
structure Group where
  xc_no_list : List Nat
  round : Nat
  type : Nat
  deriving DecidableEq, Repr

def getRateByXcNumMap (xc_num_map : List Group) : Nat :=
  (xc_num_map.map fun group => getRate group.type group.xc_no_list.length).sum

/-! ## `get_xcNumMap` -/

def checkFuel : Nat := highMax * wideMax + 1

def setTypeByNo (map : MoreInfoMap) (no type : Nat) : MoreInfoMap := fun p =>
  (map p).map fun it => if it.no = no then { it with type } else it

/-- `cur_no_2_xy` for the numbers of visible cells, the only ones it is read at -/
def no2Xy (map : MoreInfoMap) (no : Nat) : Option Point :=
  visible.find? fun p => (map p).any fun it => it.no == no

def countStep (s : MoreInfoMap × (Nat → Nat)) (p : Point) : Option (MoreInfoMap × (Nat → Nat)) :=
  match s.1 p with
  | none => some s
  | some it =>
      if it.type > 0 then do
        let found ← checkCanXcByPoint checkFuel s.1 p it.type [] true
        let count := found.xc_vec.length
        some (found.map, Function.update s.2 count (s.2 count + 1))
      else some s

/-- `get_lucky_xc_count_by_xcVec`; it looks at a board of its own, in the order of `pairs`, for
which the order of the rows stands here. -/
def getLuckyXcCountByXcVec (lucky_lian_count : Nat → Nat) (xc_vec : List Nat)
    (cur_no_2_xy : Nat → Option Point) (map : MoreInfoMap) : Option (Nat → Nat) := do
  let points ← xc_vec.mapM cur_no_2_xy
  let copy : MoreInfoMap := fun p => if p ∈ points then map p else none
  let s ← visible.foldlM countStep (copy, lucky_lian_count)
  return s.2

def luckyStep (lucky_map : Nat → Option Nat) (cur_no_2_xy : Nat → Option Point)
    (s : MoreInfoMap × (Nat → Nat)) (p : Point) : Option (MoreInfoMap × (Nat → Nat)) := do
  let it ← s.1 p
  if it.type = luckyType then do
    let found ← checkCanXcByPoint checkFuel s.1 p luckyType [] false
    if found.xc_vec = [] then some s
    else do
      let map ← found.xc_vec.foldlM
        (fun map no => (lucky_map no).map (setTypeByNo map no)) s.1
      let lucky_lian_count ← getLuckyXcCountByXcVec s.2 found.xc_vec cur_no_2_xy map
      some (map, lucky_lian_count)
  else some s

def clearStep (round : Nat) (s : MoreInfoMap × List Group) (p : Point) :
    Option (MoreInfoMap × List Group) :=
  match s.1 p with
  | none => some s
  | some it =>
      if it.type > 0 then do
        let found ← checkCanXcByPoint checkFuel s.1 p it.type [] true
        if found.xc_vec = [] then some (found.map, s.2)
        else
          some (found.map, s.2 ++
            [{ xc_no_list := found.xc_vec
               round
               type := it.type }])
      else some s

/-- The variables of `get_xcNumMap` -/
structure Cascade where
  map : MoreInfoMap
  xc_num_map : List Group := []
  lucky_lian_count : Nat → Nat := fun _ => 0
  round : Nat := 1
  round_map : List MoreInfoMap := []

/-- The rounds of `get_xcNumMap` on a board of `high` rows.  The result is `false` when a
collapse left the board with a hole. -/
def cascade (high : Nat) (lucky_map : Nat → Option Nat) :
    (fuel : Nat) → Cascade → Option (Bool × Cascade)
  | 0, _ => none
  | fuel + 1, s => do
      let round_map := s.round_map ++ [s.map]
      let (map, lucky_lian_count) ← visible.foldlM (luckyStep lucky_map (no2Xy s.map))
        (s.map, s.lucky_lian_count)
      let (map, groups) ← visible.foldlM (clearStep s.round) (map, [])
      let xc_num_map := s.xc_num_map ++ groups
      if groups = [] then
        some (true, { s with map, lucky_lian_count, round_map })
      else
        let (map, filled) := xcTasuoByMoreInfoMap high map
        if filled then
          cascade high lucky_map fuel
            { map, xc_num_map, lucky_lian_count, round := s.round + 1, round_map }
        else some (false, { s with map, xc_num_map, lucky_lian_count, round_map })

def getXcNumMap (fuel high : Nat) (map : MoreInfoMap) (lucky_map : Nat → Option Nat)
    (need_roundMap : Bool) :
    Option (Option (List Group) × (Nat → Nat) × Option (List MoreInfoMap)) :=
  (cascade high lucky_map fuel { map }).map fun (filled, s) =>
    (if filled then some s.xc_num_map else none, s.lucky_lian_count,
      if need_roundMap then some s.round_map else none)

end JyQipai.Xiaoxiaole.Match
