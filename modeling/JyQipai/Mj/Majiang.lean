import JyQipai.Mj.Algorithm

/-!
# The C++ port of the wins

From `majiang.cpp` and `majiang.h`.  A `std::map` is an ordered map, and its
`operator[]` puts a zero where there is no entry.  The sums of `int` are exact:
an overflow would have no meaning in C++.
-/

namespace JyQipai.Mj

open JyQipai.Lib

/-- The order of the keys of a `std::map<std::string, …>`. -/
instance : Ord Fan := ⟨compareOn Fan.name⟩

theorem Fan.name_injective : Function.Injective Fan.name := by
  intro a b h
  cases a <;> cases b <;> first | rfl | exact absurd h (by decide)

instance : Std.TransOrd Fan := inferInstanceAs (Std.TransCmp (compareOn Fan.name))

instance : Std.LawfulEqOrd Fan where
  eq_of_compare h := Fan.name_injective (Std.LawfulEqOrd.eq_of_compare h)

namespace Majiang

abbrev PaiMap := OrderedMap Nat Nat
abbrev PgMap := OrderedMap Nat PgType
abbrev Kaiguan := OrderedMap Fan Bool
abbrev MultiTypes := OrderedMap Fan Int

/-- `ensure_pai_list` fills the list up, and the item at the index is set. -/
def setItem (list : List PaiItem) (index : Nat) (item : PaiItem) : List PaiItem :=
  (list ++ List.replicate (index + 1 - list.length) (PaiItem.mk 0 0)).set index item

def checkKg (kg : Kaiguan) (fan : Fan) : Bool :=
  match kg[fan]? with
  | none => false
  | some b => b

/-! ## The search -/

structure Search where
  paiMap : PaiMap
  list : List PaiItem
  info : List (HuPaiData (List PaiItem))

namespace Search

def num (w : Search) (s : Nat) : Nat := w.paiMap.getD s 0

def touch (w : Search) (s : Nat) : Search :=
  { w with paiMap := if w.paiMap.contains s then w.paiMap else w.paiMap.insert s 0 }

def take (w : Search) (s n : Nat) : Search :=
  { w with paiMap := w.paiMap.insert s (w.num s - n) }

def put (w : Search) (s n : Nat) : Search :=
  { w with paiMap := w.paiMap.insert s (w.num s + n) }

def place (w : Search) (listPos type s : Nat) : Search :=
  { w with list := setItem w.list listPos ⟨type, s⟩ }

def found (w : Search) (jiangNum listPos : Nat) : Search :=
  { w with info := w.info ++ [⟨jiangNum, listPos, w.list⟩] }

def next (w : Search) (s : Nat) : Nat := if w.num s = 0 then s + 1 else s

end Search

abbrev Call := Nat → Int → Nat → Nat → Search → Option Search

section

variable (call : Call) (s : Nat) (allNum : Int) (jiangNum listPos : Nat)
  (rest : Search → Option Search)

def takeDuizi (w : Search) : Option Search :=
  if w.num s > 2 then
    let w := w.place listPos 2 s
    if allNum - 3 = 0 then
      some (if jiangNum = 1 then w.found jiangNum listPos else w)
    else do
      let w := w.take s 3
      let w ← call (w.next s) (allNum - 3) jiangNum (listPos + 1) w
      rest (w.put s 3)
  else rest w

/-- The condition for 顺子 as far as `pai_map[s + 1]`, which it reads without a
look at `map_exists`. -/
def probe (w : Search) : Search :=
  if s + 2 ≤ 39 ∧ w.paiMap.contains s then w.touch (s + 1) else w

def takeShunzi (w : Search) : Option Search :=
  let w' := probe s w
  if s + 2 ≤ 39 ∧ w.paiMap.contains s ∧ w'.num (s + 1) ≠ 0 ∧ w'.paiMap.contains (s + 2) ∧
      w'.num (s + 1) > 0 ∧ w'.num (s + 2) > 0 then
    let w := w'.place listPos 3 s
    if allNum - 3 = 0 then
      some (if jiangNum = 1 then w.found jiangNum listPos else w)
    else do
      let w := ((w.take s 1).take (s + 1) 1).take (s + 2) 1
      let w ← call (w.next s) (allNum - 3) jiangNum (listPos + 1) w
      rest (((w.put s 1).put (s + 1) 1).put (s + 2) 1)
  else rest w'

def takeJiang (w : Search) : Option Search :=
  if w.paiMap.contains s ∧ w.num s > 1 ∧ jiangNum = 0 then
    let w := w.place listPos 1 s
    if allNum - 2 = 0 then some (w.found jiangNum listPos)
    else do
      let w := w.take s 2
      let w ← call (w.next s) (allNum - 2) (jiangNum + 1) (listPos + 1) w
      rest (w.put s 2)
  else rest w

end

def computeNorHupaiInfo : Nat → Call
  | 0, _, _, _, _, _ => none
  | fuel + 1, s₀, allNum, jiangNum, listPos, w =>
      let call := computeNorHupaiInfo fuel
      match (List.range' s₀ (40 - s₀)).find? fun s => w.paiMap.contains s ∧ w.num s > 0 with
      | none => some w
      | some s =>
          takeDuizi call s allNum jiangNum listPos
            (takeShunzi call s allNum jiangNum listPos
              (takeJiang call s allNum jiangNum listPos some)) w

/-! ## The checks -/

def getGengNum (pai : PaiMap) (pg : PgMap) : Int :=
  (pai.toList.countP fun e =>
      e.2 = 4 ∨ e.2 = 1 ∧ pg.contains e.1 ∧ pg[e.1]? = some .peng) +
    (pg.toList.countP fun e => e.2 = .wg ∨ e.2 = .zg ∨ e.2 = .ag)

def tongjiPaiInfo (pai : PaiMap) (huaSe : OrderedMap Nat Nat) : Nat × OrderedMap Nat Nat :=
  pai.toList.foldl
    (fun st e => if e.2 > 0 then (st.1 + e.2, st.2.insert (e.1 / 10) 1) else st) (0, huaSe)

def tongjiPenggangInfo (pg : PgMap) (huaSe : OrderedMap Nat Nat) : Nat × OrderedMap Nat Nat :=
  pg.toList.foldl (fun st e => (st.1 + 3, st.2.insert (e.1 / 10) 1)) (0, huaSe)

def check7dHupaiInfo (pai : PaiMap) (allNum : Int) (kaiguan : Kaiguan)
    (maxShouPaiNum : Int) : Bool :=
  checkKg kaiguan .qiDui && allNum = maxShouPaiNum &&
    pai.toList.all fun e => ¬ (e.2 > 0 ∧ e.2 ≠ 2 ∧ e.2 ≠ 4)

def checkIsDaduizi (list : List PaiItem) (kaiguan : Kaiguan) : Bool :=
  checkKg kaiguan .daDuiZi && list.all fun pi => ¬ (pi.type ≠ 1 ∧ pi.type ≠ 2)

def checkIsYaojiu (list : List PaiItem) (pg : PgMap) (kaiguan : Kaiguan) : Bool :=
  checkKg kaiguan .yaoJiu &&
    (list.all fun v =>
      if v.type = 3 then ¬ (v.paiType % 10 ≠ 1 ∧ v.paiType % 10 ≠ 7)
      else ¬ (v.paiType % 10 ≠ 1 ∧ v.paiType % 10 ≠ 9)) &&
    pg.toList.all fun e => ¬ (e.1 % 10 ≠ 1 ∧ e.1 % 10 ≠ 9)

def checkIsJiangdui (list : List PaiItem) (pai : PaiMap) (pg : PgMap)
    (kaiguan : Kaiguan) : Bool :=
  checkKg kaiguan .jiangDui &&
    (list.all fun pi => ¬ (pi.type ≠ 1 ∧ pi.type ≠ 2)) &&
    (pai.toList.all fun e =>
      ¬ (e.2 > 0 ∧ e.1 % 10 ≠ 2 ∧ e.1 % 10 ≠ 5 ∧ e.1 % 10 ≠ 8)) &&
    pg.toList.all fun e => ¬ (e.1 % 10 ≠ 2 ∧ e.1 % 10 ≠ 5 ∧ e.1 % 10 ≠ 8)

def checkIsMenqing (pg : PgMap) (kaiguan : Kaiguan) : Bool :=
  checkKg kaiguan .menQing && pg.toList.all fun e => ¬ e.2 ≠ .ag

def checkIsZhongzhang (pai : PaiMap) (pg : PgMap) (kaiguan : Kaiguan) : Bool :=
  checkKg kaiguan .zhongZhang &&
    (pai.toList.all fun e => ¬ (e.2 > 0 ∧ (e.1 % 10 = 1 ∨ e.1 % 10 = 9))) &&
    pg.toList.all fun e => ¬ (e.1 % 10 = 1 ∨ e.1 % 10 = 9)

def countTwo : List (Nat × Nat) → Nat → Bool
  | [], count => count = 2
  | e :: es, count => if count + e.2 > 2 then false else countTwo es (count + e.2)

def checkIsJingoudiao (pai : PaiMap) (kaiguan : Kaiguan) : Bool :=
  checkKg kaiguan .jinGouDiao && countTwo pai.toList 0

/-! ## The kind of the win -/

def raiseType (pai : PaiMap) (pg : PgMap) (kaiguan : Kaiguan) (hupaiType : Nat)
    (hpd : HuPaiData (List PaiItem)) : Nat :=
  let hupaiType := if 2 > hupaiType ∧ checkIsDaduizi hpd.list kaiguan then 2 else hupaiType
  let hupaiType :=
    if 5 > hupaiType ∧ checkIsJiangdui hpd.list pai pg kaiguan then 5 else hupaiType
  if 4 > hupaiType ∧ checkIsYaojiu hpd.list pg kaiguan then 4 else hupaiType

def hupaiType (pai : PaiMap) (pg : PgMap) (allNum : Int) (kaiguan : Kaiguan)
    (maxShouPaiNum : Int) (info : List (HuPaiData (List PaiItem))) : Nat :=
  let type := if info.length > 0 then info.foldl (raiseType pai pg kaiguan) 1 else 0
  if check7dHupaiInfo pai allNum kaiguan maxShouPaiNum ∧ (type = 0 ∨ 3 > type) then 3
  else type

/-- `multi_types`, `hu_type_info` and `geng_num` while the fans are given. -/
structure Fans where
  multiTypes : MultiTypes
  res : MultiTypes
  gengNum : Int

namespace Fans

def give (f : Fans) (fan : Fan) : Fans :=
  let multiTypes :=
    if f.multiTypes.contains fan then f.multiTypes else f.multiTypes.insert fan 0
  { f with
    multiTypes := multiTypes
    res := f.res.insert fan (multiTypes.getD fan 0) }

def giveIf (c : Bool) (fan : Fan) (f : Fans) : Fans := if c then f.give fan else f

def typeFan (f : Fans) (type : Nat) : Fans :=
  if type = 3 then
    if f.gengNum > 0 then { f with gengNum := f.gengNum - 1 }.give .longQiDui
    else f.give .qiDui
  else if type = 2 then f.give .daDuiZi
  else if type = 5 then f.give .jiangDui
  else if type = 4 then f.give .yaoJiu
  else f

def daiGeng (f : Fans) : Fans :=
  if f.gengNum > 0 then { f with res := f.res.insert .daiGeng f.gengNum } else f

end Fans

def fans (pai : PaiMap) (pg : PgMap) (huaSeCount : Nat) (kaiguan : Kaiguan)
    (multi : MultiTypes) (type : Nat) (res : MultiTypes) : Fans :=
  let f := (Fans.mk multi res (getGengNum pai pg)).typeFan type |>.daiGeng
  let f := f.giveIf (huaSeCount = 1 && checkKg kaiguan .qingYiSe) .qingYiSe
  let f := f.giveIf (checkIsZhongzhang pai pg kaiguan) .zhongZhang
  let f := f.giveIf (checkIsMenqing pg kaiguan) .menQing
  f.giveIf (checkIsJingoudiao pai kaiguan) .jinGouDiao

/-- What a call leaves behind: the value it returns and the arguments that it
takes by reference and may change. -/
structure Outcome where
  ret : Bool
  out : HuPaiInfo MultiTypes
  multiTypes : MultiTypes

def computeHupaiInfo (pai : PaiMap) (pg : PgMap) (allNum huaSeCount : Nat)
    (kaiguan : Kaiguan) (multi : MultiTypes) (maxShouPaiNum : Int)
    (out : HuPaiInfo MultiTypes) : Option Outcome := do
  let w ← computeNorHupaiInfo (allNum + 1) 11 allNum 0 0 ⟨pai, [], []⟩
  let type := hupaiType pai pg allNum kaiguan maxShouPaiNum w.info
  if type ≠ 0 then
    let f := fans pai pg huaSeCount kaiguan multi type out.huTypeInfo
    return ⟨true, ⟨f.res, (f.res.toList.map (·.2)).sum, f.gengNum⟩, f.multiTypes⟩
  else return ⟨false, ⟨out.huTypeInfo, 0, 0⟩, multi⟩

def huaSeOf (huaSe : OrderedMap Nat Nat) (c : Nat) : Nat := huaSe.getD c 0

def getHupaiInfo (pai : PaiMap) (pg : PgMap) (mustQue : Nat) (kaiguan : Kaiguan)
    (multi : MultiTypes) (maxShouPaiNum : Int) (out : HuPaiInfo MultiTypes) :
    Option Outcome :=
  let huaSe : OrderedMap Nat Nat :=
    ((∅ : OrderedMap Nat Nat).insert 1 0 |>.insert 2 0).insert 3 0
  let (count1, huaSe) := tongjiPaiInfo pai huaSe
  let (count2, huaSe) := tongjiPenggangInfo pg huaSe
  let huaSeCount := huaSeOf huaSe 1 + huaSeOf huaSe 2 + huaSeOf huaSe 3
  if (count1 + count2 : Int) ≠ maxShouPaiNum ∨ huaSeCount > 2 then some ⟨false, out, multi⟩
  else if mustQue ≠ 0 ∧ huaSeOf huaSe mustQue ≠ 0 ∧ huaSeOf huaSe mustQue > 0 then
    some ⟨false, out, multi⟩
  else computeHupaiInfo pai pg count1 huaSeCount kaiguan multi maxShouPaiNum out

end Majiang

end JyQipai.Mj
