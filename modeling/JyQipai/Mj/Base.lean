import Mathlib

/-!
# Tiles, actions and wins of the Mahjong games

From `nor_mj_base_lib.lua` and `nor_mj_algorithm_lib.lua`: tiles are the numbers
11 to 19, 21 to 29 and 31 to 39, and a Lua table that maps tiles to numbers is a
function into `Option`.  Of the algorithm object of a table the functions that
look at the tiles only are fields of `Algo`; `getHupaiAllInfo`, which adds what
depends on the course of the hand, is built on them.
-/

namespace JyQipai.Mj

/-- `nor_mj_xzdd`, `nor_mj_xzdd_er_7`, `nor_mj_xzdd_er_13` -/
inductive GameType where
  | xzdd
  | er7
  | er13
  deriving DecidableEq, Repr

def GameType.seatCount : GameType → Nat
  | .xzdd => 4
  | _ => 2

def GameType.paiNum : GameType → Nat
  | .er7 => 7
  | _ => 13

def paiIds : List Nat :=
  [1, 2, 3].flatMap fun c => (List.range' 1 9).map fun n => 10 * c + n

def allPai (gameType : GameType) : List Nat :=
  (if gameType = .xzdd then [1, 2, 3] else [1, 2]).flatMap fun c =>
    (List.range 4).flatMap fun _ => (List.range' 1 9).map fun n => 10 * c + n

def flower (pai : Nat) : Nat := pai / 10

abbrev PaiMap := Nat → Option Int

namespace PaiMap

def num (m : PaiMap) (pai : Nat) : Int := (m pai).getD 0

def add (m : PaiMap) (pai : Nat) : PaiMap :=
  Function.update m pai (some (m.num pai + 1))

end PaiMap

/-- `peng`, `zg`, `wg` and `ag` -/
inductive PgType where
  | peng
  | zg
  | wg
  | ag
  deriving DecidableEq, Repr

/-- The melds of a seat: `pg_type`. -/
abbrev PgMap := Nat → Option PgType

/-- `zimo`, `tian_hu`, `pao` and `qghu` -/
inductive HuType where
  | zimo
  | tianHu
  | pao
  | qghu
  deriving DecidableEq, Repr

structure HuData where
  huType : HuType
  pai : Option Nat
  dianpaoP : Option Nat
  deriving DecidableEq, Repr

inductive ActType where
  | moPai
  | cp
  | pg (type : PgType)
  | hu (data : HuData)
  deriving DecidableEq, Repr

structure Act where
  type : ActType
  p : Nat
  pai : Nat := 0
  /-- An added kong that costs nothing. -/
  jwg : Bool := false
  deriving DecidableEq, Repr

def Act.isGang (act : Act) : Bool :=
  act.type = .pg .wg ∨ act.type = .pg .zg ∨ act.type = .pg .ag

def tongjiPaiInfo (pai : PaiMap) : Int × (Nat → Bool) :=
  ((paiIds.map fun id => max (pai.num id) 0).sum,
    fun c => paiIds.any fun id => flower id = c ∧ 0 < pai.num id)

def tongjiPenggangInfo (pg : PgMap) : Int × (Nat → Bool) :=
  ((paiIds.map fun id => if (pg id).isSome then (3 : Int) else 0).sum,
    fun c => paiIds.any fun id => flower id = c ∧ (pg id).isSome)

/-! ## Wins -/

/-- The switches that `get_hupai_all_info` reads. -/
structure Kaiguan where
  qiangganghu : Bool := true
  zimoJiafan : Bool := true
  zimoJiadian : Bool := false
  gangShangHua : Bool := true
  gangShangPao : Bool := true
  haiDiLy : Bool := true
  haiDiPao : Bool := true
  tianHu : Bool := true
  diHu : Bool := true
  maxFan : Option Nat := none

/-- The entries of `multi_types` that it reads. -/
structure Multi where
  zimo : Option Nat := some 1
  gangShangHua : Option Nat := some 1
  gangShangPao : Option Nat := some 1
  haiDiLy : Option Nat := some 1
  haiDiPao : Option Nat := some 1
  tianHu : Option Nat := some 5
  diHu : Option Nat := some 5
  qiangganghu : Option Nat := some 1

/-- The result of `get_hupai_all_info`; of `hu_type_info` the two entries that
the room reads. -/
structure HuInfo where
  mul : Nat
  total : Nat
  tianHu : Bool := false
  qiangganghu : Bool := false
  dianpaoP : Option Nat := none
  huPai : Option Nat := none
  deriving DecidableEq, Repr

/-- The algorithm object of a table.  `hupaiInfo` is the sum of the fans that
`get_hupai_info` finds in the tiles, `maxTingTotal` the total of
`get_max_ting_all_info`. -/
structure Algo where
  kaiguan : Kaiguan := {}
  multi : Multi := {}
  /-- `baseShouPaiNum` -/
  basePaiNum : Nat := 13
  /-- `remain_card` -/
  remainCard : Nat := 55
  hupaiInfo : PaiMap → PgMap → Option Nat → Option Nat
  maxTingTotal : PaiMap → PgMap → Option Nat → Option Nat

/-- `get_last_cp_by_act_list`: the last discard, with its position, unless it is
the seat's own. -/
def getLastCpByActList (acts : List Act) (seat : Nat) : Option Act :=
  (acts.reverse.find? fun act => act.type = .cp).filter fun act => act.p ≠ seat

def lastCp (acts : List Act) (seat : Nat) : Option Act :=
  acts.getLast?.filter fun act =>
    act.type = .cp ∧ (getLastCpByActList acts seat).isSome

def isGangshanghua (acts : List Act) (seat : Nat) : Bool :=
  match acts.reverse with
  | a1 :: a2 :: _ => a1.type = .moPai ∧ a1.p = seat ∧ a2.isGang ∧ a2.p = seat
  | _ => false

/-- `check_is_gangshangpao` without its switch: the last action is a discard of
the seat right after its kong and the draw that replaces it. -/
def isGangshangpao (acts : List Act) (seat : Nat) : Bool :=
  match acts.reverse with
  | a1 :: a2 :: a3 :: _ =>
      a1.type = .cp ∧ a1.p = seat ∧ a2.type = .moPai ∧ a2.p = seat ∧
        a3.isGang ∧ a3.p = seat
  | _ => false

namespace Algo

variable (algo : Algo)

def paoAct (acts : List Act) (seat : Nat) : Option (Act × Bool) :=
  match lastCp acts seat with
  | some act => some (act, false)
  | none =>
      match acts.getLast? with
      | none => none
      | some act =>
          if algo.kaiguan.qiangganghu ∧ act.type = .pg .wg ∧ act.p ≠ seat then
            some (act, true)
          else none

def fan (b : Bool) (multi : Option Nat) : Nat := if b then multi.getD 0 else 0

def capFan (info : HuInfo) : HuInfo :=
  match algo.kaiguan.maxFan with
  | none => info
  | some m => { info with mul := min info.mul m, total := min info.total (2 ^ m) }

/-- A win with a drawn tile.  A blessing of heaven is no self-draw; any other win has
the tile of the last action, and raises without one. -/
def zimoInfo (mul : Nat) (acts : List Act) (seat zhuang mopaiCount cpCount : Nat)
    (remain : Nat) : Option HuInfo :=
  let k := algo.kaiguan
  let tian : Bool := k.tianHu ∧ seat = zhuang ∧ cpCount = 0 ∧ mopaiCount = 0
  let mul := mul + fan (k.zimoJiafan ∧ ¬ tian) algo.multi.zimo +
    fan (k.gangShangHua ∧ isGangshanghua acts seat) algo.multi.gangShangHua +
    fan (k.haiDiLy ∧ remain = 0) algo.multi.haiDiLy +
    fan tian algo.multi.tianHu
  let info (pai : Option Nat) : HuInfo := algo.capFan
    { mul := mul
      total := (if ¬ k.zimoJiafan ∧ k.zimoJiadian then 1 else 0) + 2 ^ mul
      tianHu := tian && algo.multi.tianHu.isSome
      huPai := pai }
  if tian then some (info none) else acts.getLast?.map fun act => info (some act.pai)

def paoInfo (mul : Nat) (act : Act) (rob : Bool) (acts : List Act)
    (zhuang mopaiCount cpCount remain : Nat) : HuInfo :=
  let k := algo.kaiguan
  let mul := mul +
    fan (k.gangShangPao ∧ isGangshangpao acts act.p) algo.multi.gangShangPao +
    fan (k.haiDiPao ∧ remain = 0) algo.multi.haiDiPao +
    fan (k.diHu ∧ act.p = zhuang ∧ cpCount = 0 ∧ mopaiCount = 0 ∧
      remain = algo.remainCard) algo.multi.diHu +
    fan rob algo.multi.qiangganghu
  algo.capFan
    { mul := mul
      total := 2 ^ mul
      qiangganghu := rob && algo.multi.qiangganghu.isSome
      dianpaoP := some act.p
      huPai := some act.pai }

/-- The win of a seat, if it has one; `none` where the code raises. -/
def getHupaiAllInfo (pai : PaiMap) (pg : PgMap) (que : Option Nat)
    (acts : List Act) (seat zhuang mopaiCount cpCount remain : Nat) :
    Option (Option HuInfo) :=
  let p := tongjiPaiInfo pai
  let g := tongjiPenggangInfo pg
  let suit (c : Nat) : Bool := p.2 c || g.2 c
  if 2 < (([1, 2, 3].filter suit).length) then some none
  else if que.any suit then some none
  else if p.1 + g.1 = algo.basePaiNum then
    match algo.paoAct acts seat with
    | none => some none
    | some (act, rob) =>
        if que = some (flower act.pai) then some none
        else some ((algo.hupaiInfo (pai.add act.pai) pg que).map fun mul =>
          algo.paoInfo mul act rob acts zhuang mopaiCount cpCount remain)
  else
    match algo.hupaiInfo pai pg que with
    | none => some none
    | some mul => (algo.zimoInfo mul acts seat zhuang mopaiCount cpCount remain).map some

end Algo

end JyQipai.Mj
