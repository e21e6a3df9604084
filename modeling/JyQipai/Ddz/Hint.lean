import JyQipai.Ddz.PaiType
import JyQipai.Lib.Best

/-!
# The automatic play

The chooser, the combination generators and `cp_hint` of
`nor_ddz_algorithm_lib.lua`.  `phash` counts the ordinary cards by rank; a
missing entry and an entry 0 are treated alike by every loop of the source.
The loops over `pairs(phash)` are written in ascending rank.
-/

namespace JyQipai.Ddz

open JyQipai.Lib

structure UseInfo where
  nor : Nat → Nat
  lz : Nat → Nat

def UseInfo.empty : UseInfo := ⟨fun _ => 0, fun _ => 0⟩

/-- The result of `choose_paiType_by_num`: a rank, and the ordinary cards and
wildcards used for it. -/
structure Choice where
  type : Nat
  num : Nat
  lzNum : Nat
  deriving DecidableEq, Repr

def UseInfo.add (use : UseInfo) (c : Choice) : UseInfo :=
  ⟨Function.update use.nor c.type (use.nor c.type + c.num),
   Function.update use.lz c.type (use.lz c.type + c.lzNum)⟩

structure Combo where
  type : Nat
  pai : List Nat
  use : UseInfo

section Choose

variable (phash : Nat → Nat) (lzNum lzType start cNum : Nat)
  (noChoose : Nat → Bool)

/-- First pass: a rank with exactly `cNum` cards, the smallest one. -/
def chooseExact : Option Nat :=
  best (fun a b => a < b) (paiRanks.filter fun type =>
    !noChoose type && start ≤ type && phash type == cNum)

def chooseCompleted : Option Nat :=
  best (fun a b => phash b < phash a || (phash a == phash b && a < b))
    (paiRanks.filter fun type =>
      !noChoose type && start ≤ type && 0 < phash type && phash type < cNum &&
        cNum ≤ phash type + lzNum && type < 16)

def chooseBroken : Option Nat :=
  best (fun a b => phash a < phash b || (phash a == phash b && a < b))
    (paiRanks.filter fun type =>
      !noChoose type && start ≤ type && cNum < phash type)

def choosePaiTypeByNum : Option Choice :=
  match chooseExact phash start cNum noChoose with
  | some type => some ⟨type, phash type, 0⟩
  | none =>
      match chooseCompleted phash lzNum start cNum noChoose with
      | some type => some ⟨type, phash type, cNum - phash type⟩
      | none =>
          match chooseBroken phash start cNum noChoose with
          | some type => some ⟨type, cNum, 0⟩
          | none =>
              if cNum ≤ lzNum ∧ 0 < lzNum ∧ noChoose lzType = false ∧
                  start ≤ lzType then
                some ⟨lzType, 0, cNum⟩
              else none

end Choose

def noneChosen : Nat → Bool := fun _ => false

section Combinations

variable (phash : Nat → Nat) (lzNum lzType start : Nat)

def getDpOrDzCombination (nNum : Nat) : Option Combo :=
  (choosePaiTypeByNum phash lzNum lzType start nNum noneChosen).map fun c =>
    ⟨nNum, [c.type], UseInfo.empty.add c⟩

def get3dnCombination (nNum : Nat) : Option Combo :=
  match choosePaiTypeByNum phash lzNum lzType start 3 noneChosen with
  | none => none
  | some c =>
      if 0 < nNum then
        (choosePaiTypeByNum phash (lzNum - c.lzNum) lzType 3 nNum
          (Function.update noneChosen c.type true)).map fun d =>
            ⟨3 + nNum, [c.type, d.type], (UseInfo.empty.add c).add d⟩
      else some ⟨3, [c.type], UseInfo.empty.add c⟩

def get4dnCombination (nNum : Nat) : Option Combo :=
  match choosePaiTypeByNum phash lzNum lzType start 4 noneChosen with
  | none => none
  | some c =>
      let nc := Function.update noneChosen c.type true
      match choosePaiTypeByNum phash (lzNum - c.lzNum) lzType 0 nNum nc with
      | none => none
      | some d =>
          let phash' :=
            if nNum = 1 then Function.update phash d.type (phash d.type - 1)
            else phash
          let nc' :=
            if nNum = 1 then
              if 15 < d.type then
                Function.update (Function.update nc 16 true) 17 true
              else nc
            else Function.update nc d.type true
          (choosePaiTypeByNum phash' (lzNum - c.lzNum - d.lzNum) lzType 0 nNum
            nc').map fun e =>
              ⟨7 + nNum, [c.type, d.type, e.type],
               ((UseInfo.empty.add c).add d).add e⟩

/-- The inner loop of `get_lianxu_combination`: `count` cards of each rank of
the list, completed by wildcards; the second result counts the wildcards that
are left. -/
def lianxuFrom (count : Nat) :
    List Nat → Nat → UseInfo → Option (UseInfo × Nat)
  | [], lz, use => some (use, lz)
  | i :: rest, lz, use =>
      if phash i + lz < count then none
      else
        let norUse := min (phash i) count
        lianxuFrom count rest (lz - (count - norUse))
          ⟨Function.update use.nor i norUse,
           Function.update use.lz i (count - norUse)⟩

/-- The start ranks tried for a run of `lxNum` ranks that ends at 14 at most. -/
def lianxuStarts (lxNum : Nat) : List Nat :=
  List.range' start (15 - lxNum + 1 - start)

/-- `get_lianxu_combination`: start and end rank, the cards used, and the
number of wildcards used. -/
def getLianxuCombination (lxNum count : Nat) :
    Option (Nat × Nat × UseInfo × Nat) :=
  (lianxuStarts start lxNum).findSome? fun s =>
    if phash s + lzNum < count then none
    else
      (lianxuFrom phash count (List.range' s lxNum) lzNum UseInfo.empty).map
        fun r => (s, s + lxNum - 1, r.1, lzNum - r.2)

/-- `get_shunzi_combination`, `get_liandui_combination` and
`get_feiji_combination` for the types 6, 7 and 12. -/
def getRunCombination (type count lxNum : Nat) : Option Combo :=
  (getLianxuCombination phash lzNum start lxNum count).map fun r =>
    ⟨type, [r.1, r.2.1], r.2.2.1⟩

def getShunziCombination (lxNum : Nat) : Option Combo :=
  getRunCombination phash lzNum start 6 1 lxNum

def getLianduiCombination (lxNum : Nat) : Option Combo :=
  getRunCombination phash lzNum start 7 2 lxNum

def getFeijiCombination (lxNum : Nat) : Option Combo :=
  getRunCombination phash lzNum start 12 3 lxNum

def wingPairs :
    Nat → Nat → (Nat → Bool) → List Nat → UseInfo → Option (List Nat × UseInfo)
  | 0, _, _, pai, use => some (pai, use)
  | n + 1, lz, nc, pai, use =>
      match choosePaiTypeByNum phash lz lzType 0 2 nc with
      | none => none
      | some c =>
          wingPairs n (lz - c.lzNum) (Function.update nc c.type true)
            (pai ++ [c.type]) (use.add c)

/-- The ranks closed after a single wing of rank `type` has been chosen
`num` times beside a run from `head` to `tail`. -/
def wingClosed (head tail type num : Nat) (nc : Nat → Bool) : Nat → Bool :=
  fun r =>
    nc r || (15 < type && (r == 16 || r == 17)) ||
      (r == type && (num == 3 ||
        (num == 2 && type + 1 == head && 3 ≤ type) ||
        (num == 2 && type == tail + 1 && type < 15)))

/-- The loop of `get_feijid1_combination` that adds the single cards. -/
def wingSingles (head tail : Nat) :
    Nat → (Nat → Nat) → Nat → (Nat → Bool) → (Nat → Nat) → List Nat → UseInfo →
      Option (List Nat × UseInfo)
  | 0, _, _, _, _, pai, use => some (pai, use)
  | n + 1, ph, lz, nc, hash, pai, use =>
      match choosePaiTypeByNum ph lz lzType 0 1 nc with
      | none => none
      | some c =>
          wingSingles head tail n
            (Function.update ph c.type (ph c.type - c.num))
            (lz - c.lzNum)
            (wingClosed head tail c.type (hash c.type + 1) nc)
            (Function.update hash c.type (hash c.type + 1))
            (pai ++ [c.type]) (use.add c)

def runClosed (head tail : Nat) : Nat → Bool :=
  fun r => head ≤ r && r ≤ tail

/-- `get_feijid2_combination`.  The outer loop repeats one and the same search,
since it hands `start` to `get_lianxu_combination` and not its own counter. -/
def getFeijid2Combination (lxNum : Nat) : Option Combo :=
  (lianxuStarts start lxNum).findSome? fun _ =>
    match getLianxuCombination phash lzNum start lxNum 3 with
    | none => none
    | some (head, tail, use, used) =>
        (wingPairs phash lzType lxNum (lzNum - used) (runClosed head tail)
          [head, tail] use).map fun r => ⟨11, r.1, r.2⟩

def getFeijid1Combination (lxNum : Nat) : Option Combo :=
  (lianxuStarts start lxNum).findSome? fun _ =>
    match getLianxuCombination phash lzNum start lxNum 3 with
    | none => none
    | some (head, tail, use, used) =>
        (wingSingles lzType head tail lxNum phash (lzNum - used)
          (runClosed head tail) (fun _ => 0) [head, tail] use).map fun r =>
            ⟨10, r.1, r.2⟩

def getWazhaCombination : Option Combo :=
  if phash 16 = 1 ∧ phash 17 = 1 then
    some ⟨14, [16, 17], (UseInfo.empty.add ⟨16, 1, 0⟩).add ⟨17, 1, 0⟩⟩
  else none

def getRealZhadanCombination : Option Combo :=
  match choosePaiTypeByNum phash 0 lzType start 4 noneChosen with
  | some c => some ⟨13, [c.type], UseInfo.empty.add ⟨c.type, c.num, 0⟩⟩
  | none =>
      if lzNum = 4 ∧ start ≤ lzType then
        some ⟨13, [lzType], UseInfo.empty.add ⟨lzType, 0, 4⟩⟩
      else none

/-- `get_jiaZhadan_combination`; each call of the recursion closes one more
rank, so the first argument bounds its depth. -/
def jiaZhadanFrom : Nat → (Nat → Bool) → Option Combo
  | 0, _ => none
  | fuel + 1, nc =>
      match choosePaiTypeByNum phash lzNum lzType start 4 nc with
      | none => none
      | some c =>
          if 0 < c.lzNum ∧ c.lzNum < 4 then
            some ⟨15, [c.type], UseInfo.empty.add c⟩
          else jiaZhadanFrom fuel (Function.update nc c.type true)

def getJiaZhadanCombination : Option Combo :=
  jiaZhadanFrom phash lzNum lzType start 18 noneChosen

end Combinations

/-! ## From a combination to a play -/

def getPaiListByType (paiIdMap : Finset Nat) (type num : Nat) : List Nat :=
  ((idsOfType type).filter (· ∈ paiIdMap)).take num

def getCpListByUseInfo (paiIdMap : Finset Nat) (use : UseInfo) : CpList :=
  let norList := paiRanks.flatMap fun r => getPaiListByType paiIdMap r (use.nor r)
  let lzList := paiRanks.flatMap fun r =>
    List.replicate (use.lz r) (paiToEndIdMap r)
  { nor := if norList = [] then none else some norList
    lz := if lzList = [] then none else some lzList }

/-- What the automatic play hands to the room.  A pass has the type 0 and no
cards; `mergeCpList` is `none` if `merge_nor_and_lz` returned `false`. -/
structure HintResult where
  type : Nat
  cpList : CpList := {}
  mergeCpList : Option (List Nat) := none
  laziNum : Nat := 0
  pai : List Nat := []
  deriving DecidableEq, Repr

def package (paiIdMap : Finset Nat) (c : Combo) : HintResult :=
  let cpList := getCpListByUseInfo paiIdMap c.use
  { type := c.type
    cpList := cpList
    mergeCpList := mergeNorAndLz (some cpList)
    laziNum := cpList.lzIds.length
    pai := c.pai }

/-- The loop of `auto_choose_by_order` over the ranks: the type and rank chosen
so far. -/
def orderLoop (kaiguan : Nat → Bool) (paiIdMap : Finset Nat)
    (paiTypeMap : Nat → Nat) :
    List Nat → Option (Nat × Nat) → Option (Nat × Nat)
  | [], acc => acc
  | i :: rest, acc =>
      let tripleType :=
        if kaiguan 3 then 3 else if paiIdMap.card = 3 then 3 else 2
      if paiTypeMap i = 1 then some (1, i)
      else if paiTypeMap i = 2 then
        orderLoop kaiguan paiIdMap paiTypeMap rest
          (if acc.all (fun a => 2 < a.1) then some (2, i) else acc)
      else if paiTypeMap i = 3 then
        orderLoop kaiguan paiIdMap paiTypeMap rest
          (if acc.all (fun a => 3 < a.1) then some (tripleType, i) else acc)
      else if paiTypeMap i = 4 then
        orderLoop kaiguan paiIdMap paiTypeMap rest
          (if acc = none then some (13, i) else acc)
      else orderLoop kaiguan paiIdMap paiTypeMap rest acc

def autoChooseByOrder (kaiguan : Nat → Bool) (paiIdMap : Finset Nat)
    (paiTypeMap : Nat → Nat) (lzNum lzType : Nat) : Option HintResult :=
  match orderLoop kaiguan paiIdMap paiTypeMap paiRanks none with
  | some (type, rank) =>
      some (package paiIdMap
        ⟨type, [rank], UseInfo.empty.add ⟨rank, keyPaiNum type, 0⟩⟩)
  | none =>
      if 0 < lzNum then
        some (package paiIdMap
          ⟨1, [lzType], UseInfo.empty.add ⟨lzType, 0, 1⟩⟩)
      else none

def startPos : List Nat → Nat
  | [] => 3
  | key :: _ => key + 1

def sameTypeCombination (phash : Nat → Nat) (lzNum lzType appointType : Nat)
    (keyPai : List Nat) : Option Combo :=
  let start := startPos keyPai
  let lxNum := keyPai.getD 1 0 + 1 - keyPai.getD 0 0
  match appointType with
  | 1 => getDpOrDzCombination phash lzNum lzType start 1
  | 2 => getDpOrDzCombination phash lzNum lzType start 2
  | 3 => get3dnCombination phash lzNum lzType start 0
  | 4 => get3dnCombination phash lzNum lzType start 1
  | 5 => get3dnCombination phash lzNum lzType start 2
  | 6 => getShunziCombination phash lzNum start lxNum
  | 7 => getLianduiCombination phash lzNum start lxNum
  | 8 => get4dnCombination phash lzNum lzType start 1
  | 9 => get4dnCombination phash lzNum lzType start 2
  | 10 => getFeijid1Combination phash lzNum lzType start lxNum
  | 11 => getFeijid2Combination phash lzNum lzType start lxNum
  | 12 => getFeijiCombination phash lzNum start lxNum
  | 13 => getRealZhadanCombination phash lzNum lzType start
  | 15 => getJiaZhadanCombination phash lzNum lzType start
  | _ => none

/-- The combination chosen by `auto_choose_by_type`: the type of the last play,
else a soft bomb, a real bomb, the rocket. -/
def chooseCombination (phash : Nat → Nat) (lzNum lzType appointType : Nat)
    (keyPai : List Nat) : Option Combo :=
  (sameTypeCombination phash lzNum lzType appointType keyPai).or <|
  (if appointType < 13 then getJiaZhadanCombination phash lzNum lzType 3
   else none).or <|
  (if appointType ≠ 13 then getRealZhadanCombination phash lzNum lzType 3
   else none).or <|
  getWazhaCombination phash

def autoChooseByType (kaiguan : Nat → Bool) (paiIdMap : Finset Nat)
    (paiTypeMap : Nat → Nat) (lzNum lzType appointType : Nat)
    (keyPai : List Nat) : Option HintResult :=
  if appointType = 14 then some { type := 0 }
  else if appointType = 0 then
    autoChooseByOrder kaiguan paiIdMap paiTypeMap lzNum lzType
  else
    match chooseCombination paiTypeMap lzNum lzType appointType keyPai with
    | none => some { type := 0 }
    | some c =>
        if kaiguan c.type then some (package paiIdMap c)
        else some { type := 0 }

def paiTypeMapOf (paiIdMap : Finset Nat) (lzType : Nat) : Nat → Nat :=
  Function.update (getPaiTypeHash paiIdMap) lzType 0

def cpHint (kaiguan : Nat → Bool) (other : Option (Nat × List Nat))
    (paiIdMap : Finset Nat) (lzNum lzType : Nat) : Option HintResult :=
  let paiTypeMap := paiTypeMapOf paiIdMap lzType
  match other with
  | some (type, pai) =>
      autoChooseByType kaiguan paiIdMap paiTypeMap lzNum lzType type pai
  | none => autoChooseByOrder kaiguan paiIdMap paiTypeMap lzNum lzType

end JyQipai.Ddz
