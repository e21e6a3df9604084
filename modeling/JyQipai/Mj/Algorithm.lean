import JyQipai.Lib.Dict
import JyQipai.Mj.Base

/-!
# Wins of a hand of tiles

From `nor_mj_algorithm_lib.lua` and `nor_mj_base_lib.lua`: the search for the
ways to lay out a hand, the checks of its kind, and `get_hupai_info`.  The
search works in place on a copy of the tile map; the list of its items keeps
what earlier branches wrote behind the current position.
-/

namespace JyQipai.Mj

open JyQipai.Lib

/-- The names of the fans that `compute_hupai_info` gives. -/
inductive Fan where
  | qiDui
  | longQiDui
  | daDuiZi
  | jiangDui
  | yaoJiu
  | daiGeng
  | qingYiSe
  | zhongZhang
  | menQing
  | jinGouDiao
  deriving DecidableEq, Repr

def Fan.name : Fan → String
  | qiDui => "qi_dui"
  | longQiDui => "long_qi_dui"
  | daDuiZi => "da_dui_zi"
  | jiangDui => "jiang_dui"
  | yaoJiu => "yao_jiu"
  | daiGeng => "dai_geng"
  | qingYiSe => "qing_yi_se"
  | zhongZhang => "zhong_zhang"
  | menQing => "men_qing"
  | jinGouDiao => "jin_gou_diao"

/-- An item of a layout: `type` is 1 for the pair (将), 2 for three of a kind
(大对子) and 3 for a run (连子) that starts at `paiType`. -/
structure PaiItem where
  type : Nat
  paiType : Nat
  deriving DecidableEq, Repr

/-- A layout that was found; `L` is the language's list of items. -/
structure HuPaiData (L : Type) where
  jiangNum : Nat
  listPos : Nat
  list : L

/-- The kind of a win; `T` is the language's map of fans. -/
structure HuPaiInfo (T : Type) where
  huTypeInfo : T
  mul : Int
  gengNum : Int

namespace Algorithm

/-! ## The search -/

/-- The tables that `compute_nor_hupai_info` works on. -/
structure Search where
  paiMap : HashTable Nat Nat
  list : HashTable Nat PaiItem
  info : List (HuPaiData (HashTable Nat PaiItem))

namespace Search

def num (w : Search) (s : Nat) : Nat := (w.paiMap.lookup s).getD 0

def take (w : Search) (s n : Nat) : Search :=
  { w with paiMap := w.paiMap.insert s (w.num s - n) }

def put (w : Search) (s n : Nat) : Search :=
  { w with paiMap := w.paiMap.insert s (w.num s + n) }

def place (w : Search) (listPos type s : Nat) : Search :=
  { w with list := w.list.insert listPos ⟨type, s⟩ }

def found (w : Search) (jiangNum listPos : Nat) : Search :=
  { w with info := w.info ++ [⟨jiangNum, listPos, w.list⟩] }

def next (w : Search) (s : Nat) : Nat := if w.num s = 0 then s + 1 else s

end Search

/-- The arguments `_s`, `all_num`, `jiang_num` and `list_pos` of a call, and what
the call does. -/
abbrev Call := Nat → Int → Nat → Nat → Search → Option Search

section

variable (call : Call) (s : Nat) (allNum : Int) (jiangNum listPos : Nat)
  (rest : Search → Option Search)

/-- 大对子: `rest` is what follows unless the function returns. -/
def takeDuizi (w : Search) : Option Search :=
  if 2 < w.num s then
    let w := w.place listPos 2 s
    if allNum - 3 = 0 then
      some (if jiangNum = 1 then w.found jiangNum listPos else w)
    else do
      let w := w.take s 3
      let w ← call (w.next s) (allNum - 3) jiangNum (listPos + 1) w
      rest (w.put s 3)
  else rest w

def takeShunzi (w : Search) : Option Search :=
  if s + 2 ≤ 39 ∧ 0 < w.num (s + 1) ∧ 0 < w.num (s + 2) then
    let w := w.place listPos 3 s
    if allNum - 3 = 0 then
      some (if jiangNum = 1 then w.found jiangNum listPos else w)
    else do
      let w := ((w.take s 1).take (s + 1) 1).take (s + 2) 1
      let w ← call (w.next s) (allNum - 3) jiangNum (listPos + 1) w
      rest (((w.put s 1).put (s + 1) 1).put (s + 2) 1)
  else rest w

def takeJiang (w : Search) : Option Search :=
  if 1 < w.num s ∧ jiangNum = 0 then
    let w := w.place listPos 1 s
    if allNum - 2 = 0 then some (w.found jiangNum listPos)
    else do
      let w := w.take s 2
      let w ← call (w.next s) (allNum - 2) (jiangNum + 1) (listPos + 1) w
      rest (w.put s 2)
  else rest w

end

def computeNorHupaiInfo : Nat → Call
  | 0, _, _, _, _, _ => none
  | fuel + 1, s₀, allNum, jiangNum, listPos, w =>
      let call := computeNorHupaiInfo fuel
      match (List.range' s₀ (40 - s₀)).find? fun s => 0 < w.num s with
      | none => some w
      | some s =>
          takeDuizi call s allNum jiangNum listPos
            (takeShunzi call s allNum jiangNum listPos
              (takeJiang call s allNum jiangNum listPos some)) w

/-! ## The checks -/

abbrev PaiMap := HashTable Nat Nat
abbrev PgMap := HashTable Nat PgType
abbrev Kaiguan := HashTable Fan Bool
abbrev MultiTypes := HashTable Fan Int

def kaiguanOn (kaiguan : Kaiguan) (fan : Fan) : Bool := (kaiguan.lookup fan).getD false

def getGengNum (pai : PaiMap) (pg : PgMap) : Int :=
  (pai.entries.countP fun e => e.2 = 4 ∨ e.2 = 1 ∧ pg.lookup e.1 = some .peng) +
    (pg.entries.countP fun e => e.2 = .wg ∨ e.2 = .zg ∨ e.2 = .ag)

def tongjiPaiInfo (pai : PaiMap) (huaSe : HashTable Nat Nat) : Nat × HashTable Nat Nat :=
  pai.entries.foldl
    (fun st e => if 0 < e.2 then (st.1 + e.2, st.2.insert (e.1 / 10) 1) else st) (0, huaSe)

def tongjiPenggangInfo (pg : PgMap) (huaSe : HashTable Nat Nat) : Nat × HashTable Nat Nat :=
  pg.entries.foldl (fun st e => (st.1 + 3, st.2.insert (e.1 / 10) 1)) (0, huaSe)

def check7dHupaiInfo (pai : PaiMap) (allNum : Int) (kaiguan : Kaiguan)
    (maxShouPaiNum : Int) : Bool :=
  kaiguanOn kaiguan .qiDui && allNum = maxShouPaiNum &&
    pai.entries.all fun e => ¬ (0 < e.2 ∧ e.2 ≠ 2 ∧ e.2 ≠ 4)

def checkIsDaduizi (list : HashTable Nat PaiItem) (kaiguan : Kaiguan) : Bool :=
  kaiguanOn kaiguan .daDuiZi && list.ipairs.all fun v => v.type = 1 ∨ v.type = 2

def checkIsYaojiu (list : HashTable Nat PaiItem) (pg : PgMap) (kaiguan : Kaiguan) : Bool :=
  kaiguanOn kaiguan .yaoJiu &&
    (list.ipairs.all fun v =>
      if v.type = 3 then v.paiType % 10 = 1 ∨ v.paiType % 10 = 7
      else v.paiType % 10 = 1 ∨ v.paiType % 10 = 9) &&
    pg.entries.all fun e => e.1 % 10 = 1 ∨ e.1 % 10 = 9

def isJiang (pai : Nat) : Bool := pai % 10 = 2 ∨ pai % 10 = 5 ∨ pai % 10 = 8

def checkIsJiangdui (list : HashTable Nat PaiItem) (pai : PaiMap) (pg : PgMap)
    (kaiguan : Kaiguan) : Bool :=
  kaiguanOn kaiguan .jiangDui &&
    (list.ipairs.all fun v => v.type = 1 ∨ v.type = 2) &&
    (pai.entries.all fun e => 0 < e.2 → isJiang e.1) &&
    pg.entries.all fun e => isJiang e.1

def checkIsMenqing (pg : PgMap) (kaiguan : Kaiguan) : Bool :=
  kaiguanOn kaiguan .menQing && pg.entries.all fun e => e.2 = .ag

def checkIsZhongzhang (pai : PaiMap) (pg : PgMap) (kaiguan : Kaiguan) : Bool :=
  kaiguanOn kaiguan .zhongZhang &&
    (pai.entries.all fun e => 0 < e.2 → ¬ (e.1 % 10 = 1 ∨ e.1 % 10 = 9)) &&
    pg.entries.all fun e => ¬ (e.1 % 10 = 1 ∨ e.1 % 10 = 9)

def checkIsJingoudiao (pai : PaiMap) (kaiguan : Kaiguan) : Bool :=
  kaiguanOn kaiguan .jinGouDiao && (pai.entries.map (·.2)).sum = 2

/-! ## The kind of the win -/

def raiseType (pai : PaiMap) (pg : PgMap) (kaiguan : Kaiguan) (hupaiType : Nat)
    (v : HuPaiData (HashTable Nat PaiItem)) : Nat :=
  let hupaiType := if 2 > hupaiType ∧ checkIsDaduizi v.list kaiguan then 2 else hupaiType
  let hupaiType :=
    if 5 > hupaiType ∧ checkIsJiangdui v.list pai pg kaiguan then 5 else hupaiType
  if 4 > hupaiType ∧ checkIsYaojiu v.list pg kaiguan then 4 else hupaiType

def hupaiType (pai : PaiMap) (pg : PgMap) (allNum : Int) (kaiguan : Kaiguan)
    (maxShouPaiNum : Int) (info : List (HuPaiData (HashTable Nat PaiItem))) : Option Nat :=
  let type :=
    if info.length > 0 then some (info.foldl (raiseType pai pg kaiguan) 1) else none
  if check7dHupaiInfo pai allNum kaiguan maxShouPaiNum ∧ ∀ t ∈ type, 3 > t then some 3
  else type

def setField (res : HashTable Fan Int) (fan : Fan) (v : Option Int) : HashTable Fan Int :=
  match v with
  | none => res.erase fan
  | some v => res.insert fan v

def fanIf (multi : MultiTypes) (c : Bool) (fan : Fan) (res : HashTable Fan Int) :
    HashTable Fan Int :=
  if c then setField res fan (multi.lookup fan) else res

def typeFan (multi : MultiTypes) (type : Nat) (gengNum : Int) : HashTable Fan Int × Int :=
  if type = 3 then
    if gengNum > 0 then (setField ∅ .longQiDui (multi.lookup .longQiDui), gengNum - 1)
    else (setField ∅ .qiDui (multi.lookup .qiDui), gengNum)
  else if type = 2 then (setField ∅ .daDuiZi (multi.lookup .daDuiZi), gengNum)
  else if type = 5 then (setField ∅ .jiangDui (multi.lookup .jiangDui), gengNum)
  else if type = 4 then (setField ∅ .yaoJiu (multi.lookup .yaoJiu), gengNum)
  else (∅, gengNum)

def fans (pai : PaiMap) (pg : PgMap) (huaSeCount : Nat) (kaiguan : Kaiguan)
    (multi : MultiTypes) (type : Nat) : HuPaiInfo (HashTable Fan Int) :=
  let (res, gengNum) := typeFan multi type (getGengNum pai pg)
  let res := if gengNum > 0 then res.insert .daiGeng gengNum else res
  let res := fanIf multi (huaSeCount = 1 && kaiguanOn kaiguan .qingYiSe) .qingYiSe res
  let res := fanIf multi (checkIsZhongzhang pai pg kaiguan) .zhongZhang res
  let res := fanIf multi (checkIsMenqing pg kaiguan) .menQing res
  let res := fanIf multi (checkIsJingoudiao pai kaiguan) .jinGouDiao res
  { huTypeInfo := res
    mul := (res.entries.map (·.2)).sum
    gengNum := gengNum }

def computeHupaiInfo (pai : PaiMap) (pg : PgMap) (allNum huaSeCount : Nat)
    (kaiguan : Kaiguan) (multi : MultiTypes) (maxShouPaiNum : Int) :
    Option (Option (HuPaiInfo (HashTable Fan Int))) := do
  let w ← computeNorHupaiInfo (allNum + 1) 11 allNum 0 1 ⟨pai, ∅, []⟩
  return (hupaiType pai pg allNum kaiguan maxShouPaiNum w.info).map
    (fans pai pg huaSeCount kaiguan multi)

end Algorithm

/-- What `get_hupai_info` reads of the algorithm object. -/
structure Algorithm where
  kaiguan : Algorithm.Kaiguan
  multiTypes : Algorithm.MultiTypes
  maxShouPaiNum : Int

namespace Algorithm

def huaSeOf (huaSe : HashTable Nat Nat) (c : Nat) : Nat := (huaSe.lookup c).getD 0

def getHupaiInfo (self : Algorithm) (pai : PaiMap) (pg : PgMap) (mustQue : Option Nat) :
    Option (Option (HuPaiInfo (HashTable Fan Int))) :=
  let huaSe : HashTable Nat Nat := ((∅ : HashTable Nat Nat).insert 1 0 |>.insert 2 0).insert 3 0
  let (count1, huaSe) := tongjiPaiInfo pai huaSe
  let (count2, huaSe) := tongjiPenggangInfo pg huaSe
  let huaSeCount := huaSeOf huaSe 1 + huaSeOf huaSe 2 + huaSeOf huaSe 3
  if (count1 + count2 : Int) ≠ self.maxShouPaiNum ∨ huaSeCount > 2 then some none
  else if ∃ que ∈ mustQue, huaSeOf huaSe que > 0 then some none
  else
    computeHupaiInfo pai pg count1 huaSeCount self.kaiguan self.multiTypes self.maxShouPaiNum

end Algorithm

end JyQipai.Mj
