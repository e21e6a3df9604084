import JyQipai.Ddz.Table

/-!
# Shuffling and dealing

`xipai` and `nor_fapai` of `nor_ddz_room_lib.lua`.  The random numbers are read
from a tape `ρ`; a function that draws takes the position on the tape and
returns the next one.  Lists are indexed from 1 as in the source.
-/

namespace JyQipai.Ddz

def random (ρ : Nat → Nat) (k lo hi : Nat) : Nat := lo + ρ k % (hi + 1 - lo)

def deck : GameType → List Nat
  | .er => List.range' 9 46
  | _ => List.range' 1 54

/-! ## Shuffling -/

def exchange (pai : List Nat) (i j : Nat) : List Nat :=
  (pai.set (i - 1) (pai.getD (j - 1) 0)).set (j - 1) (pai.getD (i - 1) 0)

def shufflePass (ρ : Nat → Nat) : List Nat → Nat → List Nat → List Nat × Nat
  | [], k, pai => (pai, k)
  | i :: is, k, pai =>
      shufflePass ρ is (k + 1) (exchange pai i (random ρ k i pai.length))

def xipaiNorXipai (gameType : GameType) (ρ : Nat → Nat) (count : Option Nat)
    (k : Nat) : List Nat × Nat :=
  let pai := deck gameType
  let r := shufflePass ρ (List.range' (pai.length - 2) 3) k pai
  shufflePass ρ (List.range' 1 (count.getD pai.length - 1)) r.2 r.1

/-- `fenpai`: splits the cards into piles of `count`, the last of the `maxZu`
piles takes what is left. -/
def fenpai (count maxZu : Nat) :
    List Nat → Nat → Nat → (Nat → List Nat) → (Nat → List Nat)
  | [], _, _, fen => fen
  | p :: pai, k, cur, fen =>
      fenpai count maxZu pai (k + 1)
        (if k % count = 0 then min (cur + 1) maxZu else cur)
        (Function.update fen cur (fen cur ++ [p]))

def heap (fen : Nat → List Nat) (n : Nat) : List Nat :=
  (List.range' 1 n).flatMap fen

def exchangePiles (fen : Nat → List Nat) (i j : Nat) : Nat → List Nat :=
  if j ≠ i then Function.update (Function.update fen j (fen i)) i (fen j) else fen

def shufflePiles (ρ : Nat → Nat) (duiCount : Nat) :
    List Nat → Nat → (Nat → List Nat) → (Nat → List Nat) × Nat
  | [], k, fen => (fen, k)
  | i :: is, k, fen =>
      shufflePiles ρ duiCount is (k + 1)
        (exchangePiles fen i (random ρ k 1 duiCount))

def segmentBoom (pai : List Nat) : Nat :=
  let map (r : Nat) : Nat := pai.countP fun id => paiMap id = r
  (List.range' 3 15).countP (fun r => map r = 4) +
    if map 16 = 1 ∧ map 17 = 1 then 1 else 0

def xipaiBoomCheck (pai : List Nat) (duiCount : Nat) (duiLimit : Option Nat) :
    Nat :=
  (((List.range (pai.length / duiCount)).filter fun i =>
    duiLimit.all fun limit => i ≤ limit).map fun i =>
      segmentBoom ((pai.drop (i * duiCount)).take duiCount)).sum

/-- What distinguishes `er_xipai_buxipai` from `xipai_buxipai`. -/
structure BuxipaiArgs where
  gameType : GameType
  xpCount : Option Nat
  duiCount : Nat
  duiPaiCount : Nat
  duiLimit : Option Nat
  boomLimit : Nat → Nat

/-- One try of `xipai_buxipai`: the cards and the position on the tape. -/
def buxipaiOnce (a : BuxipaiArgs) (ρ : Nat → Nat) (k : Nat) : List Nat × Nat :=
  let r := xipaiNorXipai a.gameType ρ a.xpCount k
  let fen := fenpai 17 3 r.1 1 1 fun _ => []
  let pai := heap (fun i => (fen i).insertionSort (· ≥ ·)) 3
  let fen := fenpai a.duiPaiCount a.duiCount pai 1 1 fun _ => []
  let piles := shufflePiles ρ a.duiCount (List.range' 1 6) r.2 fen
  (heap piles.1 a.duiCount, piles.2)

/-- The tries of `xipai_buxipai`: at most `depth` more after this one.  `best`
is `boom_max` with `max_pai`. -/
def buxipai (a : BuxipaiArgs) (ρ : Nat → Nat) :
    Nat → Nat → Option Nat → Option (Nat × List Nat) → List Nat
  | depth, k, boomLimit, best =>
      let r := buxipaiOnce a ρ k
      let limit := boomLimit.getD (a.boomLimit (random ρ r.2 1 100))
      let k := if boomLimit.isSome then r.2 else r.2 + 1
      let boom := xipaiBoomCheck r.1 17 a.duiLimit
      if limit ≤ boom then r.1
      else
        let best :=
          if best.all fun b => b.1 < boom then (boom, r.1)
          else best.getD (boom, r.1)
        match depth with
        | 0 => best.2
        | depth + 1 => buxipai a ρ depth k (some limit) (some best)

def xipaiBuxipai (xpCount : Option Nat) (ρ : Nat → Nat) : List Nat :=
  buxipai
    { gameType := .nor, xpCount := xpCount, duiCount := 6, duiPaiCount := 9
      duiLimit := none
      boomLimit := fun gl => if gl < 30 then 4 else if gl < 70 then 5 else 6 }
    ρ 31 0 none none

def erXipaiBuxipai (xpCount : Option Nat) (ρ : Nat → Nat) : List Nat :=
  buxipai
    { gameType := .er, xpCount := xpCount, duiCount := 7, duiPaiCount := 7
      duiLimit := some 2
      boomLimit := fun gl => if gl < 50 then 4 else 5 }
    ρ 31 0 none none

def xipai (cfg : Config) (ρ : Nat → Nat) : List Nat :=
  match cfg.gameType with
  | .er => erXipaiBuxipai (some 25) ρ
  | .boom => xipaiBuxipai (some 25) ρ
  | .nor =>
      if cfg.isMld then xipaiBuxipai none ρ
      else (xipaiNorXipai .nor ρ none 0).1
  | .lz => (xipaiNorXipai .lz ρ none 0).1

/-! ## Dealing -/

structure Deal where
  pai : Nat → Finset Nat
  remainPai : Nat → Int
  i : Nat

def Deal.give (pai : List Nat) (p : Nat) (d : Deal) : Deal :=
  { pai := Function.update d.pai p (insert (pai.getD (d.i - 1) 0) (d.pai p))
    remainPai := Function.update d.remainPai p (d.remainPai p + 1)
    i := d.i + 1 }

/-- The inner loop of `nor_fapai`: up to `num` cards for one seat. -/
def Deal.giveUpTo (pai : List Nat) (p : Nat) : Nat → Deal → Deal
  | 0, d => d
  | num + 1, d =>
      let d := d.give pai p
      if 17 ≤ d.remainPai p ∨ pai.length - 3 < d.i then d
      else giveUpTo pai p num d

def Deal.round (pai : List Nat) (num : Nat) (d : Deal) : Deal :=
  [1, 2, 3].foldl (fun d p =>
    if d.remainPai p < 17 then d.giveUpTo pai p num else d) d

/-- The outer loop of `nor_fapai`; each round deals a card, so the number of
cards bounds the rounds. -/
def Deal.rounds (pai : List Nat) (num : Nat) : Nat → Deal → Deal
  | 0, d => d
  | fuel + 1, d =>
      if d.i ≤ pai.length - 3 then rounds pai num fuel (d.round pai num) else d

def norFapai (pai : List Nat) (play : PlayData) (num : Nat) : PlayData :=
  let d := Deal.rounds pai num pai.length ⟨play.pai, play.remainPai, 1⟩
  { play with
    pai := d.pai
    remainPai := d.remainPai
    dzPai := play.dzPai ++ pai.drop (pai.length - 3) }

end JyQipai.Ddz
