import JyQipai.Lib.Draw
import JyQipai.Xiaoxiaole.Lottery
import JyQipai.Xiaoxiaole.Match

/-!
# Lucky cells

`create_lucky` turns cells of a board into lucky cells, in places that are drawn, and keeps what
it has turned only if the cascade still pays the same rate.  A string is the list of its
characters.
-/

namespace JyQipai.Xiaoxiaole.Match

open Lib

abbrev LuckyMap := Nat → Option Nat

abbrev XcNumMap := Nat → List Group

abbrev XcPosMap := Point → Option Nat

/-! ## Boards as strings -/

def toNumber (c : Char) : Option Nat :=
  if c.isDigit then some (c.toNat - 48) else none

def rowsOf : Nat → List Nat → List (List Nat)
  | 0, _ => []
  | max_high + 1, cells => cells.take wideMax :: rowsOf max_high (cells.drop wideMax)

def xcString2XcMap (str : List Char) : Option (List (List Nat)) :=
  (str.mapM toNumber).map fun cells => rowsOf (str.length / wideMax) cells

def points (high : Nat) : List Point := (List.range' 1 high).product (List.range' 1 wideMax)

def digits (n : Nat) : List Char := Nat.toDigits 10 n

def stringStep (map : MoreInfoMap) (lucky_map : LuckyMap) (s : List Char × List Char)
    (p : Point) : Option (List Char × List Char) := do
  let it ← map p
  if it.type = luckyType then do
    let lucky ← lucky_map it.no
    some (s.1 ++ digits it.type, s.2 ++ digits lucky)
  else some (s.1 ++ digits it.type, s.2)

def moreInfomMap2String (high : Nat) (map : MoreInfoMap) (lucky_map : LuckyMap) :
    Option (List Char × List Char) :=
  (points high).foldlM (stringStep map lucky_map) ([], [])

def getLuckyMoreinfoMap (map : MoreInfoMap) (lucky_map : LuckyMap) : MoreInfoMap := fun p =>
  (map p).map fun it => if (lucky_map it.no).isSome then { it with type := luckyType } else it

/-! ## Checks -/

def checkMapEqualRate (fuel high : Nat) (map : MoreInfoMap) (lucky_map : LuckyMap) (rate : Nat) :
    Option Bool :=
  (getXcNumMap fuel high map lucky_map false).map fun (xc_num_map, _) =>
    match xc_num_map with
    | none => false
    | some xc_num_map => getRateByXcNumMap xc_num_map == rate

def checkMapIsHaveLuckyLian (fuel high : Nat) (map : MoreInfoMap) (lucky_map : LuckyMap)
    (lian_count : Int) : Option Bool :=
  (getXcNumMap fuel high map lucky_map false).map fun (_, lucky_lian_count, _) =>
    decide (0 ≤ lian_count ∧ lucky_lian_count lian_count.toNat ≠ 0)

/-! ## Cells without a group -/

def addGroup (xc_num_map : XcNumMap) (count : Nat) (group : Group) : XcNumMap :=
  Function.update xc_num_map count (xc_num_map count ++ [group])

def partnerAt (map : MoreInfoMap) (hash : List Nat) (it : Item) (q : Point) :
    Option (Option Item) := do
  let other ← map q
  return if it.type = other.type ∧ other.no ∉ hash then some other else none

/-- The cell right of `p` or above it that makes a pair with `it` -/
def otherAt (map : MoreInfoMap) (hash : List Nat) (it : Item) (p : Point) :
    Option (Option Item) := do
  let wide ← if p.2 < wideMax then partnerAt map hash it (p.1, p.2 + 1) else some none
  if wide = none ∧ p.1 < highMax then partnerAt map hash it (p.1 + 1, p.2) else some wide

def notXcStep (map : MoreInfoMap) (len : Nat) (s : XcNumMap × List Nat) (p : Point) :
    Option (XcNumMap × List Nat) := do
  let it ← map p
  if it.no ∈ s.2 then some s
  else do
    let other ← otherAt map s.2 it p
    let xc_no_list := it.no :: (other.map Item.no).toList
    some (addGroup s.1 xc_no_list.length
      { xc_no_list
        round := len
        type := it.type }, xc_no_list ++ s.2)

def getNotXcNumMap (xc_num_map : XcNumMap) (round_map : List MoreInfoMap) : Option XcNumMap := do
  let map ← round_map.getLast?
  let s ← visible.foldlM (notXcStep map round_map.length) (xc_num_map, [])
  return s.1

def getNotXcMap (round_map : List MoreInfoMap) : Nat → Bool := fun no =>
  round_map.getLast?.any fun map => visible.any fun p => (map p).any fun it => it.no == no

/-! ## Styles -/

inductive Dir where
  | heng
  | shu
  deriving DecidableEq, Repr

structure Style where
  start_x : Int
  start_y : Int
  x_factor : Int
  y_factor : Int
  x_change_factor : Option Int := none
  y_change_factor : Option Int := none
  x_change_offset : Option Int := none
  y_change_offset : Option Int := none

def dirFactor (base_num : Int) : Dir → List Style
  | .heng =>
      [⟨1, 1, -1, 0, none, none, none, none⟩,
       ⟨3, 1, 1, 0, none, none, none, none⟩,
       ⟨1, 1, -1, 0, some 1, some 0, some base_num, none⟩,
       ⟨1, 1, 0, -1, none, none, none, none⟩,
       ⟨2, 1, 0, -1, none, none, none, none⟩,
       ⟨3, 1, 0, -1, none, none, none, none⟩,
       ⟨3, 1, 0, 1, none, none, none, none⟩,
       ⟨2, 1, 0, 1, none, none, none, none⟩,
       ⟨1, 1, 0, 1, none, none, none, none⟩,
       ⟨1, 1, 0, 1, some 0, some 1, none, none⟩,
       ⟨2, 1, 0, 1, some 0, some 1, none, none⟩,
       ⟨3, 1, 0, 1, some 0, some 1, none, none⟩]
  | .shu =>
      [⟨1, 1, 0, -1, none, none, none, none⟩,
       ⟨1, 3, 0, 1, none, none, none, none⟩,
       ⟨1, 1, 0, -1, some 0, some 1, some base_num, none⟩,
       ⟨1, 1, 1, 0, none, none, none, none⟩,
       ⟨1, 2, 1, 0, none, none, none, none⟩,
       ⟨1, 3, 1, 0, none, none, none, none⟩,
       ⟨1, 3, -1, 0, none, none, none, none⟩,
       ⟨1, 2, -1, 0, none, none, none, none⟩,
       ⟨1, 1, -1, 0, none, none, none, none⟩,
       ⟨1, 1, 1, 0, some 1, some 0, none, none⟩,
       ⟨1, 2, 1, 0, some 1, some 0, none, none⟩,
       ⟨1, 3, 1, 0, some 1, some 0, none, none⟩]

def getCheckStyle (base_num extra_num : Int) (dir : Dir) (style_id : Int) :
    Option (Style × Int × Int) :=
  (dirFactor base_num dir)[(style_id - 1).toNat]?.map fun style_data =>
    (style_data,
      (if dir = .heng then wideMax - base_num else wideMax) - |style_data.x_factor| * extra_num,
      (if dir = .shu then highMax - base_num else highMax) - |style_data.y_factor| * extra_num)

def startPos (factor : Int) (change_factor : Option Int) (extra_num : Int) : Int :=
  if factor = -1 then max 0 (change_factor.getD extra_num) + 1
  else if factor = 1 then
    match change_factor with
    | some change => max 0 (extra_num - change) + 1
    | none => 0
  else 0

/-- A coordinate of the cell `key` of those that are added to the base -/
def extraPos (start rand_start factor : Int) (change_factor change_offset : Option Int)
    (key : Int) : Int :=
  let changed := change_factor.any fun change => decide (change ≤ key)
  let real_factor := if changed then -factor else factor
  let offset := if changed then change_offset.getD 0 else 0
  rand_start + (start - 1) + real_factor * key + real_factor * offset

def stylePosVec (base_num extra_num : Int) (dir : Dir) (style_data : Style)
    (x_rand_start y_rand_start : Int) : List (Int × Int) :=
  (List.range base_num.toNat).map (fun (key : Nat) =>
    (x_rand_start + (if dir = .heng then (key : Int) else 0),
      y_rand_start + (if dir = .shu then (key : Int) else 0))) ++
  (List.range extra_num.toNat).map fun (key : Nat) =>
    (extraPos style_data.start_x x_rand_start style_data.x_factor style_data.x_change_factor
        style_data.x_change_offset (key + 1),
      extraPos style_data.start_y y_rand_start style_data.y_factor style_data.y_change_factor
        style_data.y_change_offset (key + 1))

def findStyle (base_num extra_num : Int) (dir : Dir) (style_id : Int) : Option (Int × Style) :=
  (List.range 11).findSome? fun (key : Nat) =>
    let real_style_id := (style_id + (key + 1) - 1) % 12 + 1
    (getCheckStyle base_num extra_num dir real_style_id).bind fun (style_data, x_dis, y_dis) =>
      if x_dis < 0 ∨ y_dis < 0 then none else some (real_style_id, style_data)

def createLianStyle (base_num extra_num : Int) (target_dir : Option Dir)
    (target_style : Option Int) (force_start : Option (Int × Int)) :
    Draw (Option (List (Int × Int)) × Dir × Int) := do
  let dir ← match target_dir with
    | some dir => pure dir
    | none => do
        let u ← Draw.unit
        pure (if u < 1 / 2 then .heng else .shu)
  let style_id ← match target_style with
    | some style_id => pure style_id
    | none => Draw.range 1 12
  let style_id := if style_id > 12 then (style_id - 1) % 12 + 1 else style_id
  let (style_data, x_dis, y_dis) ← Draw.ofOption (getCheckStyle base_num extra_num dir style_id)
  let found :=
    if x_dis < 0 ∨ y_dis < 0 then findStyle base_num extra_num dir style_id
    else some (style_id, style_data)
  match found with
  | none => pure (none, dir, style_id)
  | some (style_id, style_data) => do
      let x_rand ← Draw.range 1 x_dis
      let y_rand ← Draw.range 1 y_dis
      let x_rand_start :=
        startPos style_data.x_factor style_data.x_change_factor extra_num + x_rand
      let y_rand_start :=
        startPos style_data.y_factor style_data.y_change_factor extra_num + y_rand
      let (x_rand_start, y_rand_start) := force_start.getD (x_rand_start, y_rand_start)
      pure (some (stylePosVec base_num extra_num dir style_data x_rand_start y_rand_start),
        dir, style_id)

def itemAt (map : MoreInfoMap) (pos : Int × Int) : Option Item :=
  if 1 ≤ pos.1 ∧ 1 ≤ pos.2 then map (pos.2.toNat, pos.1.toNat) else none

def createSingleLianStyle (round_xc_moreinfo_map : MoreInfoMap) (base_num extra_num : Int)
    (target_dir : Option Dir) (target_style : Option Int) (force_start : Option (Int × Int)) :
    Draw (Option (List Item) × Dir × Int) := do
  let (style_pos_vec, dir, style_id) ←
    createLianStyle base_num extra_num target_dir target_style force_start
  pure (style_pos_vec.bind fun vec => vec.mapM (itemAt round_xc_moreinfo_map), dir, style_id)

def getStartPosAndDir (high : Nat) (round_xc_map : MoreInfoMap) (xc_no_list : List Nat) :
    Option ((Int × Int) × Dir) := do
  let found ← xc_no_list.mapM fun no =>
    (points high).find? fun p => (round_xc_map p).any fun it => it.no == no
  let xs := found.map Prod.snd
  let ys := found.map Prod.fst
  return ((((xs.foldl min 1000 : Nat) : Int), ((ys.foldl min 1000 : Nat) : Int)),
    if xs.dedup.length = 1 then .shu else .heng)

/-! ## Replacing cells -/

def replaceOneItem (it : Item) (s : XcPosMap × LuckyMap) (replace_item : Option Nat) :
    XcPosMap × LuckyMap :=
  (Function.update s.1 (it.o_x, it.o_y) (some luckyType),
    Function.update s.2 it.no replace_item)

def dealReplaceFrom (not_xc_map : Nat → Bool) (xc_lucky_num : Int) (lucky_item : Option Nat) :
    (index : Nat) → List Item → XcPosMap × LuckyMap → Bool × XcPosMap × LuckyMap
  | _, [], s => (true, s)
  | index, it :: style_details_vec, s =>
      if (index + 1 : Nat) ≤ xc_lucky_num then
        dealReplaceFrom not_xc_map xc_lucky_num lucky_item (index + 1) style_details_vec
          (replaceOneItem it s lucky_item)
      else if some it.type = lucky_item ∨ not_xc_map it.no = false then (false, s)
      else
        dealReplaceFrom not_xc_map xc_lucky_num lucky_item (index + 1) style_details_vec
          (replaceOneItem it s (some it.type))

def dealReplace (style_details_vec : Option (List Item)) (not_xc_map : Nat → Bool)
    (s : XcPosMap × LuckyMap) (xc_lucky_num : Int) (lucky_item : Option Nat) :
    Bool × XcPosMap × LuckyMap :=
  match style_details_vec with
  | none => (false, s)
  | some [] => (false, s)
  | some vec => dealReplaceFrom not_xc_map xc_lucky_num lucky_item 0 vec s

/-- The variables of `create_lian123_lucky` and of `create_lian45_lucky` -/
structure Attempt where
  style_details_vec : Option (List Item) := none
  dir : Option Dir := none
  style_id : Option Int := none
  target_lucky_item : Option Nat := none
  random_index : Option Nat := none

/-- What `create_lucky` has read from the board -/
structure Source where
  fuel : Nat
  high : Nat
  xc_pos_map : XcPosMap
  xc_moreInfo_map : MoreInfoMap
  round_map : List MoreInfoMap
  not_xc_map : Nat → Bool
  rate : Nat

/-- Up to fifteen tries after the first one; `deal` is `deal_create_lian_style`. -/
def dealTries (src : Source) (same_lucky_num : Int)
    (deal : Option Dir → Option Int → Attempt → Draw Attempt) (item : Attempt → Option Nat) :
    (rest : Nat) → (key : Nat) → Attempt → Draw (Option (Attempt × XcPosMap × LuckyMap))
  | 0, _, _ => pure none
  | rest + 1, key, s => do
      let s ← deal s.dir (some (s.style_id.getD 0 + key)) s
      let (is_deal, r) := dealReplace s.style_details_vec src.not_xc_map
        (src.xc_pos_map, fun _ => none) same_lucky_num (item s)
      if is_deal then pure (some (s, r))
      else dealTries src same_lucky_num deal item rest (key + 1) s

def dealFirst (src : Source) (same_lucky_num : Attempt → Int)
    (deal : Option Dir → Option Int → Attempt → Draw Attempt) (item : Attempt → Option Nat) :
    Draw (Option (Attempt × XcPosMap × LuckyMap)) := do
  let s ← deal none none {}
  let (is_deal, r) := dealReplace s.style_details_vec src.not_xc_map
    (src.xc_pos_map, fun _ => none) (same_lucky_num s) (item s)
  if is_deal then pure (some (s, r)) else dealTries src (same_lucky_num s) deal item 15 1 s

def lianTypeNum (lian_type : LianType) (real_lian_num : Int) : Nat :=
  if real_lian_num = 0 then 0
  else match lian_type with
    | .lian1 => 1
    | .lian2 => 2
    | .lian3 => 3
    | _ => 0

def dealCreateLianStyle (src : Source) (xc_num_map : XcNumMap) (lian_type_num : Nat)
    (lian_num : Int) (target_dir : Option Dir) (target_style_id : Option Int) (s : Attempt) :
    Draw Attempt :=
  if lian_type_num = 0 then do
    let round_xc_map ← Draw.choose src.round_map
    let (style_details_vec, dir, style_id) ← createSingleLianStyle round_xc_map lian_type_num
      (lian_num - lian_type_num) target_dir target_style_id none
    pure { s with style_details_vec, dir := some dir, style_id := some style_id }
  else if xc_num_map lian_type_num = [] then pure s
  else do
    let random_index ← Draw.range 1 (xc_num_map lian_type_num).length
    let rand_data ← Draw.ofOption (xc_num_map lian_type_num)[(random_index - 1).toNat]?
    if rand_data.xc_no_list.length ≠ lian_type_num then Draw.fail
    else do
      let round_xc_map ← Draw.ofOption src.round_map[rand_data.round - 1]?
      let (in_round_start_pos, target_dir) ←
        Draw.ofOption (getStartPosAndDir src.high round_xc_map rand_data.xc_no_list)
      let (style_details_vec, dir, style_id) ← createSingleLianStyle round_xc_map lian_type_num
        (lian_num - lian_type_num) (some target_dir) target_style_id (some in_round_start_pos)
      pure
        { style_details_vec
          dir := some dir
          style_id := some style_id
          target_lucky_item :=
            if lian_type_num = 3 then some rand_data.type else s.target_lucky_item
          random_index := some (random_index - 1).toNat }

def createLian123Lucky (src : Source) (data : Lucky) (xc_num_map : XcNumMap) :
    Draw (Option (XcPosMap × LuckyMap) × XcNumMap) := do
  let lian_type_num := lianTypeNum data.lianType data.realLianNum
  let same_lucky_num := fun (s : Attempt) =>
    if s.target_lucky_item.isSome then data.realLianNum else 0
  let r ← dealFirst src same_lucky_num
    (dealCreateLianStyle src xc_num_map lian_type_num data.lianNum) Attempt.target_lucky_item
  match r with
  | none => pure (none, xc_num_map)
  | some (s, r) =>
      pure (some r, match s.random_index with
        | none => xc_num_map
        | some random_index =>
            Function.update xc_num_map lian_type_num
              ((xc_num_map lian_type_num).eraseIdx random_index))

def createLian45Lucky (src : Source) (data : Lucky) : Draw (Option (XcPosMap × LuckyMap)) := do
  let randon_round_data ← Draw.choose src.round_map
  let lucky_item := data.luckyItem.map Int.toNat
  let base_num : Option Int := match data.lianType with
    | .lian4 => some 4
    | .lian5 => some 3
    | _ => none
  let r ← dealFirst src (fun _ => data.realLianNum)
    (fun target_dir target_style_id s =>
      match base_num with
      | none => pure s
      | some base_num => do
          let (style_details_vec, dir, style_id) ← createSingleLianStyle randon_round_data
            base_num (data.lianNum - base_num) target_dir target_style_id none
          pure { s with style_details_vec, dir := some dir, style_id := some style_id })
    (fun _ => lucky_item)
  pure (r.map Prod.snd)

/-! ## `create_lucky` -/

/-- `basefunc.merge` of a lucky map that there may be into another one -/
def mergeLucky (src : Option LuckyMap) (dest : LuckyMap) : LuckyMap := fun no =>
  match src.bind fun lucky_map => lucky_map no with
  | some type => some type
  | none => dest no

/-- What the parts of `create_lucky` share -/
structure Lucked where
  total_lucky_map : LuckyMap
  xc_num_map : XcNumMap
  real_lian_num : Int

def createAll (src : Source) : List Lucky → LuckyMap → XcNumMap → Draw (LuckyMap × XcNumMap)
  | [], total_lucky_map, xc_num_map => pure (total_lucky_map, xc_num_map)
  | data :: lian_data, total_lucky_map, xc_num_map => do
      let (ret, xc_num_map) ← createLian123Lucky src data xc_num_map
      createAll src lian_data (mergeLucky (ret.map Prod.snd) total_lucky_map) xc_num_map

def Lucked.keep (s : Lucked) (is_succ : Bool) (total_lucky_map_tem : LuckyMap) : Lucked :=
  if is_succ then
    { s with total_lucky_map := mergeLucky (some total_lucky_map_tem) s.total_lucky_map }
  else s

def dealOnceLian3 (src : Source) (lian3_data : List Lucky) (s : Lucked) : Draw (Bool × Lucked) := do
  let (tem, _) ← createAll src lian3_data s.total_lucky_map s.xc_num_map
  let is_succ ← Draw.ofOption (checkMapEqualRate src.fuel src.high
    (getLuckyMoreinfoMap src.xc_moreInfo_map tem) tem src.rate)
  pure (is_succ, s.keep is_succ tem)

def createAll45 (src : Source) : List Lucky → LuckyMap → Int → Draw (LuckyMap × Int)
  | [], total_lucky_map, real_lian_num => pure (total_lucky_map, real_lian_num)
  | data :: lian_data, total_lucky_map, _ => do
      let ret ← createLian45Lucky src data
      createAll45 src lian_data (mergeLucky (ret.map Prod.snd) total_lucky_map) data.realLianNum

def dealOnceLian45 (src : Source) (lian45_data : List Lucky) (s : Lucked) :
    Draw (Bool × Lucked) := do
  let (tem, real_lian_num) ← createAll45 src lian45_data s.total_lucky_map s.real_lian_num
  let is_succ ← Draw.ofOption (checkMapIsHaveLuckyLian src.fuel src.high
    (getLuckyMoreinfoMap src.xc_moreInfo_map tem) tem real_lian_num)
  pure (is_succ, { s with real_lian_num }.keep is_succ tem)

def dealOnceLianOther (src : Source) (is_lian45_succ : Bool) (lian_other_data : List Lucky)
    (s : Lucked) : Draw (Bool × Lucked) := do
  let (tem, xc_num_map) ← createAll src lian_other_data s.total_lucky_map s.xc_num_map
  let map := getLuckyMoreinfoMap src.xc_moreInfo_map tem
  let is_succ ← Draw.ofOption (if is_lian45_succ then
      checkMapIsHaveLuckyLian src.fuel src.high map tem s.real_lian_num
    else checkMapEqualRate src.fuel src.high map tem src.rate)
  pure (is_succ, { s with xc_num_map }.keep is_succ tem)

def dealLian12345 (deal_func : List Lucky → Lucked → Draw (Bool × Lucked)) :
    (rest deal_times : Nat) → List Lucky → Lucked → Draw (Bool × Lucked)
  | 0, _, _, s => pure (false, s)
  | rest + 1, deal_times, lian_data, s =>
      if lian_data = [] then dealLian12345 deal_func rest deal_times lian_data s
      else do
        let (is_succ, s) ← deal_func lian_data s
        if is_succ then pure (true, s)
        else
          let lian_data := if (deal_times + 1) % 2 = 0 then lian_data.dropLast else lian_data
          dealLian12345 deal_func rest (deal_times + 1) lian_data s

/-- The board of a string, and the first results of `create_lucky` on it -/
def readSource (fuel : Nat) (xc_str : List Char) (rate : Nat) : Option (Source × XcNumMap) := do
  let xc_map ← xcString2XcMap xc_str
  let xc_moreInfo_map := xcMap2MoreInfo xc_map
  let (xc_num_map, _, round_map) ←
    getXcNumMap fuel xc_map.length xc_moreInfo_map (fun _ => none) true
  let groups ← xc_num_map
  let round_map ← round_map
  let xc_num_map ← getNotXcNumMap
    (fun count => groups.filter fun g => g.xc_no_list.length = count) round_map
  return ({
    fuel
    high := xc_map.length
    xc_pos_map := fun p => (xc_moreInfo_map p).map Item.type
    xc_moreInfo_map
    round_map
    not_xc_map := getNotXcMap round_map
    rate }, xc_num_map)

def isLian45 (data : Lucky) : Bool := data.lianType = .lian4 ∨ data.lianType = .lian5

/-- `create_lucky`.  Its order function is no order, so what `table.sort` does is not laid down:
`sort` gives the list, or nothing for an error. -/
def createLucky (fuel : Nat) (sort : List Lucky → Option (List Lucky)) (xc_str : List Char)
    (rate : Nat) (lucky_data : List Lucky) : Draw (List Char × List Char) := do
  let (src, xc_num_map) ← Draw.ofOption (readSource fuel xc_str rate)
  let lucky_data ← Draw.ofOption (if lucky_data = [] then some [] else sort lucky_data)
  let lian45_data := lucky_data.filter isLian45
  let lian3_data := lucky_data.filter fun data => data.lianType = .lian3
  let other_data := lucky_data.filter fun data => !isLian45 data && data.lianType ≠ .lian3
  let s : Lucked :=
    { total_lucky_map := fun _ => none
      xc_num_map
      real_lian_num := 0 }
  let (_, s) ← dealLian12345 (dealOnceLian3 src) 10 0 lian3_data s
  let (is_lian45_succ, s) ← dealLian12345 (dealOnceLian45 src) 10 0 lian45_data s
  let (_, s) ← dealLian12345 (dealOnceLianOther src is_lian45_succ) 10 0 other_data s
  Draw.ofOption (moreInfomMap2String src.high
    (getLuckyMoreinfoMap src.xc_moreInfo_map s.total_lucky_map) s.total_lucky_map)

end JyQipai.Xiaoxiaole.Match
