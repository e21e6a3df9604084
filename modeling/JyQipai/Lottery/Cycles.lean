import JyQipai.Lottery.Expression

/-!
# The cycles of the expression lottery

The draws of a player are divided into cycles.  Every cycle has its share of draws for assets,
each of them is worth something, and together they are worth what the configuration says.
-/

namespace JyQipai.Lottery

open Lib AssetManage

inductive Prize where
  | asset (value : Int)
  | item
  deriving DecidableEq, Repr

def Prize.value : Prize → Option Int
  | .asset value => some value
  | .item => none

def assets (prizes : List Prize) : List Int := prizes.filterMap Prize.value

section Draws

variable (F : NumFormat) (cfg : Expression)

def prizeOf (assetCount : Int) (draws : Draws) (pld : PlayerData) (k : Nat) : Option Prize :=
  let cc := assetCount - pld.lotteryAssetTime
  let rc := cfg.cycle - pld.lotteryTime
  (draws.random k 1 rc).bind fun n =>
    if n ≤ cc then (assetOf F cfg pld assetCount cc draws (k + 1)).map fun x => .asset x.1
    else some .item

def EmptyInterval (assetCount : Int) (draws : Draws) (pld : PlayerData) (k : Nat) : Prop :=
  match prizeOf F cfg assetCount draws pld k with
  | none => True
  | some (.asset _) => False
  | some .item => draws.random (k + 1) 1 cfg.items.length = none

def prizesOf (expressionId : Nat) (assetCount : Int) (draws : Draws) :
    Nat → PlayerData → Items → Nat → List Prize
  | 0, _, _, _ => []
  | n + 1, pld, items, k =>
      match prizeOf F cfg assetCount draws pld k,
        oneLottery F cfg expressionId assetCount draws pld items k with
      | some prize, some (pld, items, k) =>
          prize :: prizesOf expressionId assetCount draws n pld items k
      | _, _ => []

def Item.added (it : Item) (expressionId : Nat) (items : Items) : Items :=
  if isAsset it.item then { items with assetData := items.assetData ++ [(it.item, it.num)] }
  else { items with expression := items.expression ++ [(expressionId, it.num)] }

/-- What the prizes add to the first items: assets of the type of the lottery with their value, and
items of its configuration. -/
inductive Gives (expressionId : Nat) : List Prize → Items → Items → Prop where
  | done (items : Items) : Gives expressionId [] items items
  | asset {value : Int} {prizes : List Prize} {items items' : Items}
      (rest : Gives expressionId prizes
        { items with assetData := items.assetData ++ [(cfg.assetType, some value)] } items') :
      Gives expressionId (.asset value :: prizes) items items'
  | item {it : Item} {prizes : List Prize} {items items' : Items} (known : it ∈ cfg.items)
      (rest : Gives expressionId prizes (it.added expressionId items) items') :
      Gives expressionId (.item :: prizes) items items'

/-- `math.random` is called with an empty interval in one of the draws of a call. -/
def SomeEmpty (expressionId : Nat) (assetCount : Int) (draws : Draws) :
    Nat → PlayerData → Items → Nat → Prop
  | 0, _, _, _ => False
  | n + 1, pld, items, k =>
      EmptyInterval F cfg assetCount draws pld k ∨
        ∃ next, oneLottery F cfg expressionId assetCount draws pld items k = some next ∧
          SomeEmpty expressionId assetCount draws n next.1 next.2.1 next.2.2

end Draws

/-- A call of `lottery_expression_666`. -/
structure Request where
  playerId : PlayerId
  time : Nat
  draws : Draws

section Calls

variable (F : NumFormat)

def Center.recordOf (s : Center) (r : Request) (count : Int) : PlayerData :=
  let defultData : PlayerData := { playerId := r.playerId, lotteryItemCount := count }
  if (r.time : Int) = s.expression666.cycle then defultData
  else (s.playerLotteryData r.playerId).getD defultData

def Center.prizes (s : Center) (r : Request) (count : Int) : List Prize :=
  let pld := s.recordOf r count
  prizesOf F s.expression666 54 (s.expression666.cycle - pld.lotteryItemCount) r.draws r.time pld
    {} 1

def Center.RaisesEmpty (s : Center) (r : Request) : Prop :=
  match r.draws.random 0 s.expression666.itemCount.min s.expression666.itemCount.max with
  | none => True
  | some count =>
      let pld := s.recordOf r count
      SomeEmpty F s.expression666 54 (s.expression666.cycle - pld.lotteryItemCount) r.draws r.time
        pld {} 1

structure Log where
  center : Center
  prizes : PlayerId → List Prize := fun _ => []

def Log.step (l : Log) (r : Request) : Log where
  center := (l.center.lotteryExpression666 F r.playerId r.time r.draws).2
  prizes :=
    match r.draws.random 0 l.center.expression666.itemCount.min
      l.center.expression666.itemCount.max with
    | none => l.prizes
    | some count =>
        if (r.time : Int) = l.center.expression666.cycle then l.prizes
        else Function.update l.prizes r.playerId
          (l.prizes r.playerId ++ l.center.prizes F r count)

end Calls

/-! ## Cycles -/

structure Fair (cfg : Expression) (count : Int) (prizes : List Prize) : Prop where
  length : (prizes.length : Int) = cfg.cycle
  count : ((assets prizes).length : Int) = cfg.cycle - count
  positive : ∀ value ∈ assets prizes, 0 < value
  min_le : cfg.assetValue.min ≤ (assets prizes).sum
  le_max : (assets prizes).sum ≤ cfg.assetValue.max

/-- The prizes are those of whole cycles, and of a beginning of the next one whose assets are
worth something. -/
structure InCycles (cfg : Expression) (count : Int) (prizes : List Prize)
    (cycles : List (List Prize)) (current : List Prize) : Prop where
  split : prizes = cycles.flatten ++ current
  fair : ∀ c ∈ cycles, Fair cfg count c
  lt : (current.length : Int) < cfg.cycle
  positive : ∀ value ∈ assets current, 0 < value

section Config

variable (F : NumFormat) (cfg : Expression)

/-- `asset_value.max` is at least ten for each draw of a cycle and the largest single draw. -/
structure Admissible : Prop where
  one_le : 1 ≤ cfg.itemCount.min
  min_le_max : cfg.itemCount.min ≤ cfg.itemCount.max
  max_lt : cfg.itemCount.max < cfg.cycle
  value : cfg.assetValue.min ≤ cfg.assetValue.max
  largest : ∀ count, cfg.itemCount.min ≤ count → count ≤ cfg.itemCount.max →
    ∀ ave, assetAve F cfg (cfg.cycle - count) = some ave →
      10 * cfg.cycle + ⌈F.mul ave (F.rnd (9 / 5))⌉ ≤ cfg.assetValue.max

structure Filled : Prop extends Admissible F cfg where
  items : cfg.items ≠ []
  sum_pos : 0 < cfg.assetValue.min + cfg.assetValue.max

/-- Rounding takes at most the half of a number that is not too small for the format. -/
def Rounds : Prop := ∀ x : ℚ, 1 / (8 * cfg.cycle) ≤ x → x / 2 ≤ F.rnd x

end Config

/-! ## One draw -/

theorem Draws.random_bounds {draws : Draws} {k : Nat} {m n r : Int}
    (h : draws.random k m n = some r) : m ≤ r ∧ r ≤ n := by
  unfold Draws.random at h
  split at h
  · cases h
    have hpos : 0 < n - m + 1 := by omega
    have hlow := Int.emod_nonneg (draws k) hpos.ne'
    have hhigh := Int.emod_lt_of_pos (draws k) hpos
    omega
  · cases h

theorem Draws.exists_random (draws : Draws) (k : Nat) {m n : Int} (h : m ≤ n) :
    ∃ r, draws.random k m n = some r :=
  ⟨_, if_pos h⟩

section Values

variable {F : NumFormat} {cfg : Expression}

theorem Admissible.cycle_pos (h : Admissible F cfg) : 1 < cfg.cycle := by
  have := h.one_le
  have := h.min_le_max
  have := h.max_lt
  omega

theorem Rounds.half_le (h : Rounds F cfg) (hcycle : 1 < cfg.cycle) {x : ℚ} (hx : 1 / 16 ≤ x) :
    x / 2 ≤ F.rnd x := by
  refine h x (le_trans ?_ hx)
  have htwo : (2 : ℚ) ≤ cfg.cycle := by exact_mod_cast hcycle
  exact one_div_le_one_div_of_le (by norm_num) (by linarith)

theorem exists_assetAve (h : Filled F cfg) (hF : Rounds F cfg) {assetCount : Int}
    (hpos : 1 ≤ assetCount) (hle : assetCount ≤ cfg.cycle) :
    ∃ ave, assetAve F cfg assetCount = some ave ∧ 1 ≤ ave := by
  have hcycle := h.cycle_pos
  have hcycle' : (0 : ℚ) < cfg.cycle := by exact_mod_cast hpos.trans hle
  have hcount : (0 : ℚ) < assetCount := by exact_mod_cast hpos
  have hle' : (assetCount : ℚ) ≤ cfg.cycle := by exact_mod_cast hle
  refine ⟨_, if_neg (by omega), Int.one_le_ceil_iff.mpr ?_⟩
  have hsum : (1 : ℚ) ≤ ((cfg.assetValue.min + cfg.assetValue.max : Int) : ℚ) := by
    exact_mod_cast h.sum_pos
  have hhalf : (1 / 4 : ℚ) ≤ F.rnd (1 / 2) := by
    have := hF.half_le hcycle (x := 1 / 2) (by norm_num)
    linarith
  have hprod : (1 / 4 : ℚ) ≤
      ((cfg.assetValue.min + cfg.assetValue.max : Int) : ℚ) * F.rnd (1 / 2) := by
    nlinarith
  have hmul : (1 / 8 : ℚ) ≤
      F.mul ((cfg.assetValue.min + cfg.assetValue.max : Int) : ℚ) (F.rnd (1 / 2)) := by
    have := hF.half_le hcycle (hprod.trans' (by norm_num))
    unfold NumFormat.mul
    linarith
  have hquot : 1 / (8 * (cfg.cycle : ℚ)) ≤
      F.mul ((cfg.assetValue.min + cfg.assetValue.max : Int) : ℚ) (F.rnd (1 / 2)) /
        assetCount := by
    rw [div_le_div_iff₀ (by positivity) hcount]
    nlinarith
  have hdiv := hF _ hquot
  have hlow : (0 : ℚ) < 1 / (8 * (cfg.cycle : ℚ)) := by positivity
  unfold NumFormat.div
  linarith

theorem share_bounds (hF : Rounds F cfg) (hcycle : 1 < cfg.cycle) {ave : Int} (hpos : 1 ≤ ave) :
    1 ≤ ⌈F.mul ave (F.rnd (1 / 5))⌉ ∧
      ⌈F.mul ave (F.rnd (1 / 5))⌉ ≤ ⌈F.mul ave (F.rnd (9 / 5))⌉ := by
  have hone : (1 : ℚ) ≤ ave := by exact_mod_cast hpos
  have hfifth : (1 / 10 : ℚ) ≤ F.rnd (1 / 5) := by
    have := hF.half_le hcycle (x := 1 / 5) (by norm_num)
    linarith
  have hmono : F.rnd (1 / 5) ≤ F.rnd (9 / 5) := F.mono (by norm_num)
  constructor
  · refine Int.one_le_ceil_iff.mpr ?_
    have hprod : (1 / 10 : ℚ) ≤ ave * F.rnd (1 / 5) := by nlinarith
    have hmul := hF.half_le hcycle (hprod.trans' (by norm_num))
    unfold NumFormat.mul
    linarith
  · exact Int.ceil_le_ceil (F.mono (mul_le_mul_of_nonneg_left hmono (by linarith)))

end Values

section Prizes

variable {F : NumFormat} {cfg : Expression} {assetCount : Int} {draws : Draws} {pld : PlayerData}
  {k : Nat}

theorem oneLottery_asset {r : Int}
    (hprize : prizeOf F cfg assetCount draws pld k = some (.asset r)) (expressionId : Nat)
    (items : Items) : ∃ k', oneLottery F cfg expressionId assetCount draws pld items k =
      some ({ pld with
          lotteryAsset := pld.lotteryAsset + r
          lotteryAssetTime := pld.lotteryAssetTime + 1 }.endCycle cfg.cycle,
        { items with assetData := items.assetData ++ [(cfg.assetType, some r)] }, k') := by
  obtain ⟨n, hn, hprize⟩ := Option.bind_eq_some_iff.mp hprize
  split at hprize
  · rename_i hcc
    obtain ⟨⟨r', k'⟩, hasset, heq⟩ := Option.map_eq_some_iff.mp hprize
    cases heq
    refine ⟨k', ?_⟩
    rw [oneLottery, hn, Option.bind_some, if_pos hcc, hasset]
    rfl
  · cases hprize

theorem oneLottery_item (hprize : prizeOf F cfg assetCount draws pld k = some .item)
    {expressionId : Nat} {items : Items} {next : PlayerData × Items × Nat}
    (hnext : oneLottery F cfg expressionId assetCount draws pld items k = some next) :
    next.1 = pld.endCycle cfg.cycle := by
  obtain ⟨n, hn, hprize⟩ := Option.bind_eq_some_iff.mp hprize
  split at hprize
  · obtain ⟨x, -, heq⟩ := Option.map_eq_some_iff.mp hprize
    cases heq
  · rename_i hcc
    rw [oneLottery, hn, Option.bind_some, if_neg hcc] at hnext
    obtain ⟨x, -, rfl⟩ := Option.map_eq_some_iff.mp hnext
    rfl

theorem itemOf_added {expressionId : Nat} {items items' : Items} {k' : Nat}
    (h : itemOf cfg expressionId items draws k = some (items', k')) :
    ∃ it ∈ cfg.items, items' = it.added expressionId items := by
  obtain ⟨index, -, h⟩ := Option.bind_eq_some_iff.mp h
  obtain ⟨it, hit, h⟩ := Option.bind_eq_some_iff.mp h
  refine ⟨it, List.mem_of_getElem? hit, ?_⟩
  rw [Item.added]
  split at h
  · next hasset =>
    cases h
    exact (if_pos hasset).symm
  · next hasset =>
    split at h
    · cases h
      exact (if_neg hasset).symm
    · cases h

theorem oneLottery_gives {expressionId : Nat} {items : Items} {next : PlayerData × Items × Nat}
    (hnext : oneLottery F cfg expressionId assetCount draws pld items k = some next) :
    ∃ prize, prizeOf F cfg assetCount draws pld k = some prize ∧
      ∀ prizes items', Gives cfg expressionId prizes next.2.1 items' →
        Gives cfg expressionId (prize :: prizes) items items' := by
  obtain ⟨n, hn, hstep⟩ := Option.bind_eq_some_iff.mp hnext
  split at hstep
  · next hcc =>
    obtain ⟨⟨r, k'⟩, hasset, rfl⟩ := Option.map_eq_some_iff.mp hstep
    refine ⟨.asset r, ?_, fun prizes items' => .asset⟩
    rw [prizeOf, hn, Option.bind_some, if_pos hcc, hasset]
    rfl
  · next hcc =>
    obtain ⟨⟨items₁, k'⟩, hitem, rfl⟩ := Option.map_eq_some_iff.mp hstep
    obtain ⟨it, hit, rfl⟩ := itemOf_added hitem
    refine ⟨.item, ?_, fun prizes items' => .item hit⟩
    rw [prizeOf, hn, Option.bind_some, if_neg hcc]

theorem lotteries_give {expressionId n : Nat} {items items' : Items}
    (h : (lotteries F cfg expressionId assetCount draws n pld items k).2 = some items') :
    Gives cfg expressionId (prizesOf F cfg expressionId assetCount draws n pld items k) items
      items' := by
  induction n generalizing pld items k with
  | zero =>
      cases h
      exact .done _
  | succ n ih =>
      cases hnext : oneLottery F cfg expressionId assetCount draws pld items k with
      | none =>
          rw [lotteries, hnext] at h
          cases h
      | some next =>
          obtain ⟨prize, hprize, hgives⟩ := oneLottery_gives hnext
          rw [lotteries, hnext] at h
          rw [prizesOf, hprize, hnext]
          exact hgives _ _ (ih h)

end Prizes

/-! ## One cycle -/

theorem assets_concat_asset (l : List Prize) (value : Int) :
    assets (l ++ [.asset value]) = assets l ++ [value] := by
  rw [assets, List.filterMap_append]
  rfl

theorem assets_concat_item (l : List Prize) : assets (l ++ [.item]) = assets l := by
  rw [assets, List.filterMap_append]
  exact List.append_nil _

/-- The sums in the record of a player are those of the cycle, and what was drawn leaves at least
ten for each draw of assets that is left, and so many draws. -/
structure Sums (cfg : Expression) (count : Int) (pld : PlayerData) (current : List Prize) :
    Prop where
  itemCount : pld.lotteryItemCount = count
  assetTime : pld.lotteryAssetTime = (assets current).length
  asset : pld.lotteryAsset = (assets current).sum
  assetTime_le : ((assets current).length : Int) ≤ cfg.cycle - count
  items_le : (current.length : Int) - (assets current).length ≤ count
  positive : ∀ value ∈ assets current, 0 < value
  room : (assets current).sum + (cfg.cycle - count - (assets current).length) * 10 ≤
    cfg.assetValue.max
  enough : ((assets current).length : Int) = cfg.cycle - count →
    cfg.assetValue.min ≤ (assets current).sum

structure Records (cfg : Expression) (count : Int) (pld : PlayerData) (current : List Prize) : Prop
    extends Sums cfg count pld current where
  time : pld.lotteryTime = current.length
  lt : (current.length : Int) < cfg.cycle

section Step

variable {F : NumFormat} {cfg : Expression} {count : Int} {pld : PlayerData}
  {current : List Prize}

theorem Records.begin (h : Filled F cfg) (hF : Rounds F cfg) (hmin : cfg.itemCount.min ≤ count)
    (hmax : count ≤ cfg.itemCount.max) (hcount : pld.lotteryItemCount = count)
    (htime : pld.lotteryTime = 0) (hasset : pld.lotteryAsset = 0)
    (hassetTime : pld.lotteryAssetTime = 0) : Records cfg count pld [] := by
  have hlt := h.max_lt
  have hone := h.one_le
  obtain ⟨ave, hsome, hpos⟩ := exists_assetAve h hF
    (show 1 ≤ cfg.cycle - count by omega) (by omega)
  have hlargest := h.largest count hmin hmax ave hsome
  have hshare := share_bounds hF h.cycle_pos hpos
  refine ⟨⟨hcount, hassetTime, hasset, ?_, ?_, ?_, ?_, ?_⟩, htime, ?_⟩
  · simp [assets]
    omega
  · simp [assets]
    omega
  · simp [assets]
  · simp [assets]
    omega
  · simp [assets]
    omega
  · have := h.cycle_pos
    simp
    omega

theorem Records.assetOf (hr : Records cfg count pld current) (draws : Draws) (k : Nat)
    (h : Filled F cfg)
    (hF : Rounds F cfg) (hcount : 0 ≤ count)
    (hleft : 1 ≤ cfg.cycle - count - pld.lotteryAssetTime) :
    ∃ r k', Lottery.assetOf F cfg pld (cfg.cycle - count)
        (cfg.cycle - count - pld.lotteryAssetTime) draws k = some (r, k') ∧ 0 < r ∧
      pld.lotteryAsset + r + (cfg.cycle - count - (pld.lotteryAssetTime + 1)) * 10 ≤
        cfg.assetValue.max ∧
      (pld.lotteryAssetTime + 1 = cfg.cycle - count →
        cfg.assetValue.min ≤ pld.lotteryAsset + r) := by
  have htime := hr.assetTime
  have hroom := hr.room
  rw [← hr.asset, ← hr.assetTime] at hroom
  have hassetTime : 0 ≤ pld.lotteryAssetTime := htime ▸ Int.natCast_nonneg _
  obtain ⟨ave, hsome, hpos⟩ := exists_assetAve h hF
    (show 1 ≤ cfg.cycle - count by omega) (by omega)
  obtain ⟨hlow, hhigh⟩ := share_bounds hF h.cycle_pos hpos
  obtain ⟨r, hdraw⟩ := Draws.exists_random draws k hhigh
  have hr_pos := (Draws.random_bounds hdraw).1
  rw [Lottery.assetOf, hsome, Option.bind_some, hdraw, Option.bind_some]
  split
  · rename_i hlast
    have hle : max (pld.lotteryAsset + 1) cfg.assetValue.min ≤ cfg.assetValue.max :=
      max_le (by omega) h.value
    obtain ⟨fr, hfr⟩ := Draws.exists_random draws (k + 1) hle
    obtain ⟨hfr_low, hfr_high⟩ := Draws.random_bounds hfr
    rw [hfr]
    refine ⟨_, _, rfl, ?_, ?_, fun _ => ?_⟩
    · omega
    · omega
    · omega
  · rename_i hmore
    refine ⟨_, _, rfl, ?_, ?_, fun _ => ?_⟩
    · split <;> omega
    · split <;> omega
    · omega

theorem Sums.addItem (hs : Sums cfg count pld current)
    (hitems : (current.length : Int) + 1 - (assets current).length ≤ count) :
    Sums cfg count pld (current ++ [.item]) := by
  obtain ⟨hcount, hassetTime, hasset, hle, -, hpos, hroom, henough⟩ := hs
  rw [← assets_concat_item current] at hassetTime hasset hle hpos hroom henough hitems
  refine ⟨hcount, hassetTime, hasset, hle, ?_, hpos, hroom, henough⟩
  rw [List.length_append, List.length_singleton]
  push_cast
  exact hitems

theorem Sums.addAsset (hs : Sums cfg count pld current) {r : Int} (hr : 0 < r)
    (hleft : 1 ≤ cfg.cycle - count - pld.lotteryAssetTime)
    (hroom : pld.lotteryAsset + r + (cfg.cycle - count - (pld.lotteryAssetTime + 1)) * 10 ≤
      cfg.assetValue.max)
    (henough : pld.lotteryAssetTime + 1 = cfg.cycle - count →
      cfg.assetValue.min ≤ pld.lotteryAsset + r) :
    Sums cfg count { pld with
      lotteryAsset := pld.lotteryAsset + r
      lotteryAssetTime := pld.lotteryAssetTime + 1 } (current ++ [.asset r]) := by
  have hlength : ((assets (current ++ [.asset r])).length : Int) = pld.lotteryAssetTime + 1 := by
    rw [assets_concat_asset, List.length_append, List.length_singleton, hs.assetTime]
    push_cast
    rfl
  have hsum : (assets (current ++ [.asset r])).sum = pld.lotteryAsset + r := by
    rw [assets_concat_asset, List.sum_append, List.sum_singleton, hs.asset]
  have hitems := hs.items_le
  rw [← hs.assetTime] at hitems
  refine ⟨hs.itemCount, hlength.symm, hsum.symm, ?_, ?_, ?_, ?_, ?_⟩
  · rw [hlength]
    omega
  · rw [hlength, List.length_append, List.length_singleton]
    push_cast
    omega
  · rw [assets_concat_asset]
    intro value hvalue
    rcases List.mem_append.mp hvalue with hvalue | hvalue
    · exact hs.positive value hvalue
    · rwa [List.mem_singleton.mp hvalue]
  · rw [hlength, hsum]
    exact hroom
  · rw [hlength, hsum]
    exact henough

theorem Sums.endCycle (hs : Sums cfg count pld current) (h : Filled F cfg) (hF : Rounds F cfg)
    (hmin : cfg.itemCount.min ≤ count) (hmax : count ≤ cfg.itemCount.max)
    (htime : pld.lotteryTime + 1 = current.length) (hle : (current.length : Int) ≤ cfg.cycle) :
    Records cfg count (pld.endCycle cfg.cycle) current ∨
      Fair cfg count current ∧ Records cfg count (pld.endCycle cfg.cycle) [] := by
  rcases hle.lt_or_eq with hlt | heq
  · have hend : pld.endCycle cfg.cycle = { pld with lotteryTime := pld.lotteryTime + 1 } := by
      rw [PlayerData.endCycle, if_neg (by dsimp only; omega)]
    rw [hend]
    exact .inl ⟨⟨hs.itemCount, hs.assetTime, hs.asset, hs.assetTime_le, hs.items_le, hs.positive,
      hs.room, hs.enough⟩, htime, hlt⟩
  · have hend : pld.endCycle cfg.cycle =
        { pld with lotteryTime := 0, lotteryAsset := 0, lotteryAssetTime := 0 } := by
      rw [PlayerData.endCycle, if_pos (by dsimp only; omega)]
    have hall : ((assets current).length : Int) = cfg.cycle - count := by
      have := hs.assetTime_le
      have := hs.items_le
      omega
    have hroom := hs.room
    rw [hend]
    exact .inr ⟨⟨heq, hall, hs.positive, hs.enough hall, by rw [hall] at hroom; omega⟩,
      .begin h hF hmin hmax hs.itemCount rfl rfl rfl⟩

theorem Records.draw (hr : Records cfg count pld current) (draws : Draws) (k : Nat)
    (h : Filled F cfg) (hF : Rounds F cfg)
    (hmin : cfg.itemCount.min ≤ count) (hmax : count ≤ cfg.itemCount.max) :
    ¬EmptyInterval F cfg (cfg.cycle - count) draws pld k ∧
      ∀ expressionId items next,
        oneLottery F cfg expressionId (cfg.cycle - count) draws pld items k = some next →
        ∃ prize, prizeOf F cfg (cfg.cycle - count) draws pld k = some prize ∧
          (Records cfg count next.1 (current ++ [prize]) ∨
            Fair cfg count (current ++ [prize]) ∧ Records cfg count next.1 []) := by
  have hone := h.one_le
  have htime := hr.time
  have hassetTime := hr.assetTime
  have hlt := hr.lt
  have hle := hr.assetTime_le
  have hitems := hr.items_le
  have hlength (prize : Prize) : ((current ++ [prize]).length : Int) = current.length + 1 := by
    rw [List.length_append, List.length_singleton]
    push_cast
    rfl
  obtain ⟨n, hn⟩ := Draws.exists_random draws (k)
    (show 1 ≤ cfg.cycle - pld.lotteryTime by omega)
  obtain ⟨hn_low, hn_high⟩ := Draws.random_bounds hn
  by_cases hcc : n ≤ cfg.cycle - count - pld.lotteryAssetTime
  · obtain ⟨r, k', hasset, hpos, hroom, henough⟩ := hr.assetOf draws (k + 1) h hF
      (by omega) (by omega)
    have hprize : prizeOf F cfg (cfg.cycle - count) draws pld k = some (.asset r) := by
      rw [prizeOf, hn, Option.bind_some, if_pos hcc, hasset]
      rfl
    refine ⟨by rw [EmptyInterval, hprize]; exact not_false, fun expressionId items next hnext => ?_⟩
    obtain ⟨k', hdrawn⟩ := oneLottery_asset hprize expressionId items
    rw [hdrawn] at hnext
    cases hnext
    refine ⟨_, hprize, Sums.endCycle ?_ h hF hmin hmax ?_ ?_⟩
    · exact hr.addAsset hpos (by omega) hroom henough
    · rw [hlength]
      dsimp only
      omega
    · rw [hlength]
      omega
  · have hprize : prizeOf F cfg (cfg.cycle - count) draws pld k = some .item := by
      rw [prizeOf, hn, Option.bind_some, if_neg hcc]
    have hsome : (1 : Int) ≤ cfg.items.length := by
      exact_mod_cast List.length_pos_of_ne_nil h.items
    obtain ⟨index, hindex⟩ := Draws.exists_random draws (k + 1) hsome
    refine ⟨?_, fun expressionId items next hnext => ?_⟩
    · rw [EmptyInterval, hprize]
      simp only [hindex, reduceCtorEq, not_false_eq_true]
    · rw [oneLottery_item hprize hnext]
      refine ⟨_, hprize, Sums.endCycle ?_ h hF hmin hmax ?_ ?_⟩
      · exact hr.addItem (by omega)
      · rw [hlength]
        omega
      · rw [hlength]
        omega

/-! ## A call -/

theorem Records.lotteries (hr : Records cfg count pld current) (draws : Draws) (k : Nat)
    (h : Filled F cfg) (hF : Rounds F cfg) (hmin : cfg.itemCount.min ≤ count)
    (hmax : count ≤ cfg.itemCount.max) {prizes : List Prize} {cycles : List (List Prize)}
    (hin : InCycles cfg count prizes cycles current) (expressionId n : Nat) (items : Items) :
    ¬SomeEmpty F cfg expressionId (cfg.cycle - count) draws n pld items k ∧
      ∃ cycles' current', Records cfg count
          (Lottery.lotteries F cfg expressionId (cfg.cycle - count) draws n pld items k).1
          current' ∧
        InCycles cfg count
          (prizes ++ prizesOf F cfg expressionId (cfg.cycle - count) draws n pld items k)
          cycles' current' := by
  induction n generalizing pld current prizes cycles items k with
  | zero =>
      refine ⟨not_false, cycles, current, hr, ?_⟩
      rw [prizesOf, List.append_nil]
      exact hin
  | succ n ih =>
      obtain ⟨hempty, hdraw⟩ := hr.draw draws k h hF hmin hmax
      cases hnext : oneLottery F cfg expressionId (cfg.cycle - count) draws pld items k with
      | none =>
          refine ⟨?_, cycles, current, ?_, ?_⟩
          · rw [SomeEmpty, hnext]
            rintro (h | ⟨next, h, -⟩)
            · exact hempty h
            · cases h
          · rw [Lottery.lotteries, hnext]
            exact hr
          · have hnil : prizesOf F cfg expressionId (cfg.cycle - count) draws (n + 1) pld items k =
                [] := by
              rw [prizesOf, hnext]
              split
              · rename_i hsome
                cases hsome
              · rfl
            rw [hnil, List.append_nil]
            exact hin
      | some next =>
          obtain ⟨prize, hprize, hcases⟩ := hdraw expressionId items next hnext
          have hprizes : prizesOf F cfg expressionId (cfg.cycle - count) draws (n + 1) pld items k =
              prize :: prizesOf F cfg expressionId (cfg.cycle - count) draws n next.1 next.2.1
                next.2.2 := by
            rw [prizesOf, hprize, hnext]
          have hrest : ∃ cycles current, Records cfg count next.1 current ∧
              InCycles cfg count (prizes ++ [prize]) cycles current := by
            rcases hcases with hnew | ⟨hfair, hnew⟩
            · refine ⟨cycles, _, hnew, ?_, hin.fair, hnew.lt, hnew.positive⟩
              rw [hin.split, List.append_assoc]
            · refine ⟨cycles ++ [current ++ [prize]], [], hnew, ?_, ?_, hnew.lt, hnew.positive⟩
              · rw [hin.split, List.flatten_append]
                simp
              · intro c hc
                rcases List.mem_append.mp hc with hc | hc
                · exact hin.fair c hc
                · rwa [List.mem_singleton.mp hc]
          obtain ⟨cycles', current', hnew, hin'⟩ := hrest
          obtain ⟨hnone, cycles'', current'', hrun, hall⟩ := ih hnew next.2.2 hin' next.2.1
          refine ⟨?_, cycles'', current'', ?_, ?_⟩
          · rw [SomeEmpty, hnext]
            rintro (hfirst | ⟨next', heq, hlater⟩)
            · exact hempty hfirst
            · cases heq
              exact hnone hlater
          · rw [Lottery.lotteries, hnext]
            exact hrun
          · rw [hprizes, List.append_cons]
            exact hall

end Step

section Log

variable {F : NumFormat} {cfg : Expression}

/-- Every player's draws are in cycles, each with the number of items in the player's record. -/
structure Kept (cfg : Expression) (l : Log) : Prop where
  cfg_eq : l.center.expression666 = cfg
  empty : ∀ p, l.center.playerLotteryData p = none → l.prizes p = []
  records : ∀ p pld, l.center.playerLotteryData p = some pld →
    cfg.itemCount.min ≤ pld.lotteryItemCount ∧ pld.lotteryItemCount ≤ cfg.itemCount.max ∧
      ∃ cycles current, Records cfg pld.lotteryItemCount pld current ∧
        InCycles cfg pld.lotteryItemCount (l.prizes p) cycles current

theorem Kept.record {l : Log} (hl : Kept cfg l) (h : Filled F cfg) (hF : Rounds F cfg)
    {r : Request} {count : Int}
    (hcount : r.draws.random 0 cfg.itemCount.min cfg.itemCount.max = some count) :
    let pld := l.center.recordOf r count
    cfg.itemCount.min ≤ pld.lotteryItemCount ∧ pld.lotteryItemCount ≤ cfg.itemCount.max ∧
      ∃ cycles current, Records cfg pld.lotteryItemCount pld current ∧
        InCycles cfg pld.lotteryItemCount
          (if (r.time : Int) = cfg.cycle then [] else l.prizes r.playerId) cycles current := by
  obtain ⟨hmin, hmax⟩ := Draws.random_bounds hcount
  have hnew : Records cfg count { playerId := r.playerId, lotteryItemCount := count } [] :=
    .begin h hF hmin hmax rfl rfl rfl rfl
  have hnone : InCycles cfg count [] [] [] := ⟨rfl, by simp, hnew.lt, hnew.positive⟩
  dsimp only
  rw [Center.recordOf, hl.cfg_eq]
  split
  · exact ⟨hmin, hmax, [], [], hnew, hnone⟩
  · cases hpld : l.center.playerLotteryData r.playerId with
    | none =>
        rw [hl.empty _ hpld]
        exact ⟨hmin, hmax, [], [], hnew, hnone⟩
    | some pld => exact hl.records _ _ hpld

theorem Kept.not_raisesEmpty {l : Log} (hl : Kept cfg l) (h : Filled F cfg) (hF : Rounds F cfg)
    (r : Request) : ¬l.center.RaisesEmpty F r := by
  obtain ⟨count, hcount⟩ := Draws.exists_random r.draws 0 h.min_le_max
  obtain ⟨hmin, hmax, cycles, current, hrecords, hin⟩ := hl.record h hF hcount
  rw [Center.RaisesEmpty, hl.cfg_eq, hcount]
  exact (hrecords.lotteries r.draws 1 h hF hmin hmax hin 54 r.time {}).1

theorem Kept.step {l : Log} (hl : Kept cfg l) (h : Filled F cfg) (hF : Rounds F cfg)
    (r : Request) : Kept cfg (l.step F r) := by
  obtain ⟨count, hcount⟩ := Draws.exists_random r.draws 0 h.min_le_max
  obtain ⟨hmin, hmax, cycles, current, hrecords, hin⟩ := hl.record h hF hcount
  obtain ⟨-, hrun⟩ := hrecords.lotteries r.draws 1 h hF hmin hmax hin 54 r.time {}
  by_cases hcycle : (r.time : Int) = cfg.cycle
  · have heq : l.step F r = l := by
      have hcenter : (l.center.lotteryExpression666 F r.playerId r.time r.draws).2 = l.center := by
        rw [Center.lotteryExpression666, Center.lotteryExpression, hl.cfg_eq, hcount]
        dsimp only
        rw [if_pos hcycle]
      rw [Log.step, hcenter, hl.cfg_eq, hcount]
      dsimp only
      rw [if_pos hcycle]
    rwa [heq]
  · obtain ⟨cycles', current', hrecords', hin'⟩ := hrun
    rw [if_neg hcycle] at hin'
    generalize hpld : (lotteries F cfg 54
      (cfg.cycle - (l.center.recordOf r count).lotteryItemCount) r.draws r.time
      (l.center.recordOf r count) {} 1).1 = pld at hrecords'
    have hcenter : (l.center.lotteryExpression666 F r.playerId r.time r.draws).2 =
        { l.center with
          playerLotteryData := Function.update l.center.playerLotteryData r.playerId
            (some pld) } := by
      rw [← hpld, Center.lotteryExpression666, Center.lotteryExpression, Center.recordOf,
        hl.cfg_eq, hcount]
      dsimp only
      rw [if_neg hcycle, if_neg hcycle, hl.cfg_eq]
    have hprizes : (l.step F r).prizes =
        Function.update l.prizes r.playerId (l.prizes r.playerId ++ l.center.prizes F r count) := by
      rw [Log.step, hl.cfg_eq, hcount]
      exact if_neg hcycle
    have hcount' := hrecords'.itemCount
    refine ⟨?_, ?_, ?_⟩
    · rw [Log.step, hcenter]
      exact hl.cfg_eq
    · intro p hp
      rw [Log.step, hcenter] at hp
      rw [hprizes]
      have hne : p ≠ r.playerId := by
        rintro rfl
        simp at hp
      rw [Function.update_of_ne hne]
      exact hl.empty p (by simpa [hne] using hp)
    · intro p pld' hp
      rw [Log.step, hcenter] at hp
      rw [hprizes]
      by_cases hne : p = r.playerId
      · subst hne
        obtain rfl : pld = pld' := by simpa using hp
        rw [Function.update_self, hcount', Center.prizes, hl.cfg_eq]
        exact ⟨hmin, hmax, cycles', current', hrecords', hin'⟩
      · rw [Function.update_of_ne hne]
        exact hl.records p pld' (by simpa [hne] using hp)

theorem Kept.gives {l : Log} (hl : Kept cfg l) {r : Request} {count : Int} {items : Items}
    (hcount : r.draws.random 0 cfg.itemCount.min cfg.itemCount.max = some count)
    (hitems : (l.center.lotteryExpression666 F r.playerId r.time r.draws).1.items = some items) :
    Gives cfg 54 (l.center.prizes F r count) {} items := by
  rw [Center.lotteryExpression666, Center.lotteryExpression, hl.cfg_eq, hcount] at hitems
  dsimp only at hitems
  rw [Center.prizes, Center.recordOf, hl.cfg_eq]
  split at hitems
  · next hcycle =>
    rw [if_pos hcycle]
    exact lotteries_give hitems
  · next hcycle =>
    rw [if_neg hcycle]
    exact lotteries_give hitems

theorem kept_run (h : Filled F cfg) (hF : Rounds F cfg) {l : Log} (hl : Kept cfg l)
    (requests : List Request) : Kept cfg (run (Log.step F) l requests) := by
  induction requests generalizing l with
  | nil => exact hl
  | cons r requests ih => exact ih (hl.step h hF r)

/-- No call is given an empty interval, and all draws of a player, and those of a whole cycle at
once, are in fair cycles; and what a call returns is what its draws give. -/
theorem cycles_fair (h : Filled F cfg) (hF : Rounds F cfg) {s : Center}
    (hs : s.expression666 = cfg) (hnew : ∀ p, s.playerLotteryData p = none)
    (requests : List Request) :
    let l := run (Log.step F) ⟨s, fun _ => []⟩ requests
    (∀ r, ¬l.center.RaisesEmpty F r) ∧
      (∀ p pld, l.center.playerLotteryData p = some pld →
        cfg.itemCount.min ≤ pld.lotteryItemCount ∧ pld.lotteryItemCount ≤ cfg.itemCount.max ∧
          ∃ cycles current, InCycles cfg pld.lotteryItemCount (l.prizes p) cycles current) ∧
      (∀ r : Request, (r.time : Int) = cfg.cycle → ∀ count,
        r.draws.random 0 cfg.itemCount.min cfg.itemCount.max = some count →
          ∃ cycles current, InCycles cfg count (l.center.prizes F r count) cycles current) ∧
      ∀ r : Request, ∀ count items,
        r.draws.random 0 cfg.itemCount.min cfg.itemCount.max = some count →
          (l.center.lotteryExpression666 F r.playerId r.time r.draws).1.items = some items →
            Gives cfg 54 (l.center.prizes F r count) {} items := by
  have hl : Kept cfg (run (Log.step F) ⟨s, fun _ => []⟩ requests) :=
    kept_run h hF ⟨hs, fun _ _ => rfl, fun p pld hp => by simp [hnew p] at hp⟩ requests
  refine ⟨hl.not_raisesEmpty h hF, fun p pld hp => ?_, fun r htime count hcount => ?_,
    fun r count items hcount hitems => hl.gives hcount hitems⟩
  · obtain ⟨hmin, hmax, cycles, current, -, hin⟩ := hl.records p pld hp
    exact ⟨hmin, hmax, cycles, current, hin⟩
  · obtain ⟨hmin, hmax, cycles, current, hrecords, hin⟩ := hl.record h hF hcount
    obtain ⟨-, cycles', current', -, hin'⟩ :=
      hrecords.lotteries r.draws 1 h hF hmin hmax hin 54 r.time {}
    have hrecord : (Center.recordOf (run (Log.step F) ⟨s, fun _ => []⟩ requests).center r
        count).lotteryItemCount = count := by
      rw [Center.recordOf, hl.cfg_eq, if_pos htime]
    rw [if_pos htime, hrecord, List.nil_append] at hin'
    rw [Center.prizes, hl.cfg_eq, hrecord]
    exact ⟨cycles', current', hin'⟩

end Log

theorem rounds_exact {cfg : Expression} (h : 0 ≤ cfg.cycle) : Rounds .exact cfg := by
  intro x hx
  have hcycle : (0 : ℚ) ≤ cfg.cycle := by exact_mod_cast h
  have hlow : (0 : ℚ) ≤ 1 / (8 * (cfg.cycle : ℚ)) := by positivity
  change x / 2 ≤ x
  linarith

def threeDraws (asset : Bound) (items : List Item) : Expression where
  cycle := 3
  itemCount := ⟨1, 1⟩
  assetType := "shop_gold_sum"
  assetValue := asset
  items

theorem admissible_threeDraws {asset : Bound} (hvalue : asset.min ≤ asset.max) {items : List Item}
    (hlargest : 30 + ⌈(⌈(((asset.min + asset.max : Int) : ℚ) * (1 / 2)) / 2⌉ : ℚ) * (9 / 5)⌉ ≤
      asset.max) : Admissible .exact (threeDraws asset items) := by
  have hlt : (1 : Int) < 3 := by decide
  refine ⟨le_rfl, le_rfl, hlt, hvalue, fun count hmin hmax ave hsome => ?_⟩
  obtain rfl : 1 = count := le_antisymm hmin hmax
  cases hsome
  exact hlargest

def firstCall (draws : Draws) : Request := ⟨"a", 1, draws⟩

def newCenter (cfg : Expression) : Center where
  expression666 := cfg
  expressionShuitong := cfg

/-- An item is drawn where there are none, and an asset where the average is below zero. -/
theorem empty_intervals :
    (Admissible .exact (threeDraws ⟨1000, 2000⟩ []) ∧
      (newCenter (threeDraws ⟨1000, 2000⟩ [])).RaisesEmpty .exact (firstCall fun _ => 2)) ∧
    Admissible .exact (threeDraws ⟨-5000, 2000⟩ [⟨"expression", some 1⟩]) ∧
      (newCenter (threeDraws ⟨-5000, 2000⟩ [⟨"expression", some 1⟩])).RaisesEmpty .exact
        (firstCall fun _ => 0) := by
  refine ⟨⟨admissible_threeDraws (by decide) (by norm_num), .inl ?_⟩,
    admissible_threeDraws (by decide) (by norm_num), .inl ?_⟩
  · exact (rfl : Draws.random (fun _ => 2) 2 1 0 = none)
  · have hceil : ⌈(((-5000 + 2000 : Int) : ℚ) * (1 / 2)) / ((2 : Int) : ℚ)⌉ = -750 := by norm_num
    have hlow : ⌈((-750 : Int) : ℚ) * (1 / 5)⌉ = -150 := by norm_num
    have hhigh : ⌈((-750 : Int) : ℚ) * (9 / 5)⌉ = -1350 := by norm_num
    have hprize : prizeOf .exact (threeDraws ⟨-5000, 2000⟩ [⟨"expression", some 1⟩]) 2 (fun _ => 0)
        { playerId := "a", lotteryItemCount := 1 } 1 = none := by
      change ((Draws.random (fun _ => 0) 2
        ⌈((⌈(((-5000 + 2000 : Int) : ℚ) * (1 / 2)) / ((2 : Int) : ℚ)⌉ : Int) : ℚ) * (1 / 5)⌉
        ⌈((⌈(((-5000 + 2000 : Int) : ℚ) * (1 / 2)) / ((2 : Int) : ℚ)⌉ : Int) : ℚ) * (9 / 5)⌉).bind
          _).map _ = none
      rw [hceil, hlow, hhigh]
      rfl
    change EmptyInterval .exact (threeDraws ⟨-5000, 2000⟩ [⟨"expression", some 1⟩]) 2 (fun _ => 0)
      { playerId := "a", lotteryItemCount := 1 } 1
    rw [EmptyInterval, hprize]
    trivial

theorem cycles_fair_first :
    let l := run (Log.step .exact)
      ⟨newCenter (threeDraws ⟨1000, 2000⟩ [⟨"expression", some 1⟩]), fun _ => []⟩
      [firstCall fun _ => 0, firstCall fun _ => 1]
    ¬l.center.RaisesEmpty .exact (firstCall fun _ => 0) ∧
      (∃ cycles current, InCycles (threeDraws ⟨1000, 2000⟩ [⟨"expression", some 1⟩]) 1
        (l.center.prizes .exact ⟨"a", 3, fun _ => 0⟩ 1) cycles current) ∧
      ∃ items, Gives (threeDraws ⟨1000, 2000⟩ [⟨"expression", some 1⟩]) 54
        (l.center.prizes .exact ⟨"b", 1, fun _ => 2⟩ 1) {} items := by
  have hfilled : Filled .exact (threeDraws ⟨1000, 2000⟩ [⟨"expression", some 1⟩]) :=
    ⟨admissible_threeDraws (by decide) (by norm_num), by simp [threeDraws], by decide⟩
  have hfair := cycles_fair hfilled (rounds_exact (by decide)) (s := newCenter _) rfl
    (fun _ => rfl) [firstCall fun _ => 0, firstCall fun _ => 1]
  exact ⟨hfair.1 _, hfair.2.2.1 ⟨"a", 3, fun _ => 0⟩ rfl 1 rfl, ⟨[(54, some 1)], []⟩,
    hfair.2.2.2 ⟨"b", 1, fun _ => 2⟩ 1 _ rfl (by decide +kernel)⟩

end JyQipai.Lottery
