import JyQipai.AssetManage.Overdraft
import JyQipai.AssetManage.Verify

/-!
# Purchases are paid

A request that ends with the result 0 has taken the whole price that its
configuration or its box names, and has delivered, whatever ran while it waited.
-/

namespace JyQipai.AssetManage.Purchase

open JyQipai.Lib Account

abbrev Sane (s : Account) : Prop := SaneShop s.shopingConfig

variable {s u : Account} {path : List (Stretch Account Answer)}

theorem change_trans (s t u : Account) : change s t + change t u = change s u := by
  funext x
  simp only [change, Pi.add_apply]
  omega

theorem change_still {t : Account} (h : Still s t) : change s t = 0 := by
  funext x
  simp [change, h.datas]

theorem sums_changeOne {c : Change} (hc : Named c) (s : Account) (m : AssetType → Int) :
    (changeOne true c s).Sums Valid Sane change (fun _ m' => m' = m + worth c) m s := by
  rcases changeOne_cases hc s with ⟨t, heq, -, -, -, hdatas⟩ | ⟨hworth, -, hgoes⟩
  · rw [heq, Prog.Sums]
    funext x
    have := hdatas x
    simp only [change, Pi.add_apply]
    omega
  · have hzero : worth c = 0 := funext hworth
    rw [hzero, add_zero]
    exact Prog.Sums.of_goes hgoes fun s t h => change_still h

theorem sums_changeAssetMulti {l : List Change} (hl : ∀ c ∈ l, Named c) (s : Account)
    (m : AssetType → Int) :
    (changeAssetMulti true l s).Sums Valid Sane change
      (fun _ m' => m' = m + (l.map worth).sum) m s := by
  induction l generalizing s m with
  | nil =>
      rw [changeAssetMulti, Prog.Sums, List.map_nil, List.sum_nil, change_still (.refl s)]
  | cons c l ih =>
      rw [changeAssetMulti]
      refine (sums_changeOne (hl c List.mem_cons_self) s m).bind change_trans
        fun _ t m' hm => ?_
      have hrest := ih (fun c hc => hl c (List.mem_cons_of_mem _ hc)) t m'
      rw [hm, add_assoc, ← List.sum_cons, ← List.map_cons] at hrest
      rw [hm]
      exact hrest

theorem sum_worth_apply (l : List Change) (x : AssetType) :
    (l.map worth).sum x = (l.map fun c => worth c x).sum := by
  induction l with
  | nil => rfl
  | cons c l ih => simp only [List.map_cons, List.sum_cons, Pi.add_apply, ih]

theorem sum_taken {price : AssetType × Int} (h : IsCoin price.1) (l : List Change)
    (x : AssetType) : (worth (taken price) + (l.map worth).sum) x =
      (l.map fun c => worth c x).sum - if x = price.1 then price.2 else 0 := by
  rw [Pi.add_apply, worth_taken h, sum_worth_apply]
  omega

theorem sane_setConfig {c : Option (ShopConfig × Int)} (hu : Sane u)
    (hc : ∀ x ∈ c, SaneShop x.1) : Sane (u.setConfig c) := by
  cases c with
  | none => exact hu
  | some c => exact hc c rfl

theorem named_gifts (row : Good) : ∀ c ∈ row.gifts, Named c := by
  intro c hc
  obtain ⟨⟨t, i⟩, -, hc⟩ := List.mem_filterMap.mp hc
  dsimp only at hc
  split at hc
  · obtain rfl := Option.some.inj hc
    cases row.giftAssetCount[i]? with
    | none => simp [delivered, Named]
    | some n => trivial
  · cases hc

theorem total_booked {l : List Change} (hl : ∀ c ∈ l, Named c) {f : Account → Account}
    (hf : ∀ s, change s (f s) = 0) {v : Account} (hv : change u v = 0) {x : Option Answer}
    {code n : Int}
    (h : ((changeAssetMulti true l v).bind fun _ s => .done (f s) n).Ends Valid Sane x u
      path code) : total change path = (l.map worth).sum := by
  have hbooked : ((changeAssetMulti true l v).bind fun _ s => .done (f s) n).Sums Valid Sane
      change (fun _ m => m = (l.map worth).sum) 0 v := by
    refine (sums_changeAssetMulti hl v 0).bind change_trans fun _ t m hm => ?_
    rw [Prog.Sums, hf, add_zero, hm, zero_add]
  have hstart : (0 : AssetType → Int) = 0 + change u v := by rw [hv, zero_add]
  rw [hstart] at hbooked
  have := (Prog.Sums.of_step change_trans hbooked).of_ends h
  rwa [zero_add] at this

theorem change_setConfig (c : Option (ShopConfig × Int)) (u : Account) :
    change u (u.setConfig c) = 0 := by
  funext x
  cases c with
  | none => simp [change, setConfig]
  | some c => simp [change, setConfig]

theorem payError_ne_zero (t : AssetType) : payError t ≠ 0 := by
  unfold payError
  split
  · decide
  · exact assetError_ne_zero t

theorem total_asked {x y : Option Answer} {t : Account} :
    total change (⟨x, s, s.lockAct⟩ :: ⟨y, u, t⟩ :: path) =
      total change (⟨y, u, t⟩ :: path) := by
  rw [total_cons]
  have : change s s.lockAct = 0 := by
    funext x
    simp [change, lockAct]
  rw [this, zero_add]

theorem paid_exchangeRow {t : AssetType} {id : Int} {row : Good} {v : Account}
    {x : Option Answer} (hv : Sane v) (huv : change u v = 0) (hrow : v.good t id = some row)
    (h : (exchangeRow t row v).Ends Valid Sane x u path 0) :
    ∃ price, row.use = some price ∧ ∀ y, total change path y =
      ((delivered t (some row.num) :: row.gifts).map fun c => worth c y).sum -
        if y = price.1 then price.2 else 0 := by
  unfold exchangeRow at h
  split at h
  · cases h
  · next price huse =>
    have hcoin := (saneShop_good hv hrow).1 price huse
    split at h
    · exact absurd h.result (payError_ne_zero _)
    · split at h
      · refine ⟨price, huse, fun y => ?_⟩
        have hnamed : ∀ c ∈ delivered t (some row.num) :: taken price :: row.gifts,
            Named c := by
          simpa [delivered, taken, Named] using named_gifts row
        rw [total_booked (f := fun s => s) hnamed (fun s => change_still (.refl s)) huv h]
        rw [List.map_cons, List.map_cons, List.sum_cons, List.sum_cons, Pi.add_apply,
          sum_taken hcoin, List.map_cons, List.sum_cons]
        omega
      · exact absurd h.result (by decide)

theorem paid_exchangeGoods {goodsType : Option AssetType} {goodsId : Option Int}
    (h : (payExchangeGoods goodsType goodsId s).Ends Valid Sane none s path 0) :
    Paid (.exchangeGoods goodsType goodsId) path := by
  unfold payExchangeGoods at h
  split at h
  · exact absurd h.result (by decide)
  · simp only [updateShopingConfig, Prog.bind] at h
    cases h with
    | @call _ _ _ u _ _ y rest _ hy hu h =>
        cases y with
        | config c =>
            obtain ⟨_, rest, rfl⟩ := h.start_eq
            simp only [Prog.bind] at h
            split at h
            · next t id =>
              split at h
              · next row hrow =>
                have hset := sane_setConfig hu hy
                obtain ⟨price, huse, htotal⟩ :=
                  paid_exchangeRow (v := (u.setConfig c).unlockAct) hset (change_setConfig c u)
                    hrow h
                have hrow : (u.setConfig c).good t id = some row := hrow
                refine ⟨price, delivered t (some row.num) :: row.gifts, ?_, fun x => ?_⟩
                · simp [bill, hrow, huse]
                · rw [total_asked, htotal]
              · exact absurd h.result (by decide)
            · exact absurd h.result (by decide)
        | _ => exact hy.elim

theorem paid_buyExpression {type : AssetType} {time : Int} {price : AssetType × Int}
    {v : Account} {x : Option Answer} (hcoin : IsCoin price.1) (huv : change u v = 0)
    (h : (buyExpression type time price v).Ends Valid Sane x u path 0) :
    ∃ t p q rest l, path = ⟨x, u, t⟩ :: p :: q :: rest ∧ q.answer = some (.lottery l) ∧
      ∀ y, total change path y =
        (l.map fun c => worth c y).sum - if y = price.1 then price.2 else 0 := by
  unfold buyExpression at h
  split at h
  · exact absurd h.result (payError_ne_zero _)
  · cases h with
    | @call _ _ _ v₁ _ _ y rest₁ _ hy hv₁ h =>
        cases y with
        | status n =>
            dsimp only at h
            split at h
            · exact absurd h.result ‹_›
            · obtain ⟨t, heq, -, -, -, hdatas⟩ := changeOne_taken hcoin v₁
              simp only [changeAssetMulti, heq, Prog.bind] at h
              unfold drawExpression at h
              cases h with
              | @call _ _ _ v₂ _ _ z rest₂ _ hz hv₂ h =>
                  cases z with
                  | lottery l =>
                      have htotal := total_booked (fun c hc => (hz c hc).named)
                        (fun s => by funext x; simp [change, unlockAct])
                        (change_still (.refl v₂)) h
                      obtain ⟨_, rest, rfl⟩ := h.start_eq
                      refine ⟨_, _, _, _, l, rfl, rfl, fun y => ?_⟩
                      rw [total_cons, total_cons, htotal, huv, zero_add, Pi.add_apply,
                        sum_worth_apply, change, hdatas]
                      dsimp only
                      omega
                  | _ => exact hz.elim
        | _ => exact hy.elim

theorem paid_lottery {type : AssetType} {time : Option Int}
    (h : (payLottery type time s).Ends Valid Sane none s path 0) :
    Paid (.lottery type time) path := by
  unfold payLottery at h
  split at h
  · exact absurd h.result (by decide)
  · split at h
    · exact absurd h.result (by decide)
    · next time =>
      split at h
      · exact absurd h.result (by decide)
      · simp only [updateShopingConfig, Prog.bind] at h
        cases h with
        | @call _ _ _ u _ _ y rest _ hy hu h =>
            cases y with
            | config c =>
                simp only [Prog.bind] at h
                split at h
                · cases h
                · exact absurd h.result (by decide)
                · next price hprice =>
                  have hcoin := isCoin_of_expression (sane_setConfig hu hy) hprice
                  obtain ⟨t, p, q, rest, l, rfl, hq, htotal⟩ :=
                    paid_buyExpression hcoin (change_setConfig c u) h
                  refine ⟨price, l, ?_, fun x => ?_⟩
                  · simp [bill, hq, hprice]
                  · rw [total_asked, htotal]
            | _ => exact hy.elim

theorem paid_luckBox {id : Option Int}
    (h : (payLotteryLuckBox id s).Ends Valid Sane none s path 0) :
    Paid (.luckBox id) path := by
  unfold payLotteryLuckBox at h
  split at h
  · exact absurd h.result (by decide)
  · split at h
    · exact absurd h.result (by decide)
    · cases h with
      | @call _ _ _ u _ _ y rest _ hy hu h =>
          cases y with
          | status n => exact absurd h.result hy
          | luckBox consume assets =>
              obtain ⟨_, rest, rfl⟩ := h.start_eq
              simp only [buyLuckBox] at h
              split at h
              · exact absurd h.result (by decide)
              · refine ⟨_, _, rfl, fun x => ?_⟩
                have hnamed : ∀ c ∈ [taken ("jing_bi", consume), assets], Named c := by
                  simpa [taken, Named] using hy.named
                rw [total_asked, total_booked (f := fun s => s) hnamed
                  (fun s => change_still (.refl s)) ?_ h]
                · exact sum_taken isCoin_jingBi [assets] x
                · funext x
                  simp [change, unlockAct]
          | _ => exact hy.elim

/-- From covered balances, no balance is ever negative as long as no request comes to
its check while a purchase is checked and unpaid; and each request that ends with 0
has taken its full price, whatever runs while it waits. -/
theorem purchases_covered_and_paid {s : Account} (hshop : SaneShop s.shopingConfig)
    (hcoin : s.playerObjectId "jing_bi" = none)
    (hcover : ∀ x, 0 ≤ (s.assetDatas x).getD 0) :
    (∀ w : World Account (Purchase × Ask) Answer Int,
      Reach (World.step handle) (fun w i => Admitted w i ∧ NoneUnpaid w i) ⟨s, []⟩ w →
        ∀ x, 0 ≤ (w.state.assetDatas x).getD 0) ∧
      ∀ (r : Purchase) (u : Account) (path : List (Stretch Account Answer)),
        (r.pay u).Ends Valid Sane none u path 0 → Paid r path := by
  refine ⟨fun w hw => covered_of_reach ⟨hshop, hcoin⟩ hcover hw, fun r u path h => ?_⟩
  cases r with
  | exchangeGoods goodsType goodsId => exact paid_exchangeGoods h
  | lottery type time => exact paid_lottery h
  | luckBox id => exact paid_luckBox h

/-! ## Two card counters for the price of one -/

def tenDiamonds : Account where
  assetDatas t := if t = "diamond" then some 10 else none
  shopingConfig := [("jipaiqi", [(1, { use := some ("diamond", 10), num := 1 })])]

theorem covered_tenDiamonds (x : AssetType) : 0 ≤ (tenDiamonds.assetDatas x).getD 0 := by
  simp only [tenDiamonds]
  split <;> decide

theorem saneShop_tenDiamonds : SaneShop tenDiamonds.shopingConfig := by
  have hcoin : IsCoin "diamond" := ⟨by decide, by decide +kernel⟩
  simpa [SaneShop, tenDiamonds] using hcoin

def buyCounter : Input Event Answer := .command (.request (.exchangeGoods "jipaiqi" (some 1)))

/-- The counter is bought, and delivered before the next purchase. -/
theorem covered_and_paid_tenDiamonds :
    (∀ w : World Account (Purchase × Ask) Answer Int,
      Reach (World.step handle) (fun w i => Admitted w i ∧ NoneUnpaid w i)
        ⟨tenDiamonds, []⟩ w → ∀ x, 0 ≤ (w.state.assetDatas x).getD 0) ∧
      ∀ (r : Purchase) (u : Account) (path : List (Stretch Account Answer)),
        (r.pay u).Ends Valid Sane none u path 0 → Paid r path :=
  purchases_covered_and_paid saneShop_tenDiamonds rfl covered_tenDiamonds

def twoCounters : List (Input Event Answer) :=
  [buyCounter, .answer 0 (.config none), buyCounter, .answer 1 (.config none),
    .answer 0 (.object "a"), .answer 0 (.object "b")]

theorem counters_overdraw :
    Reach (World.step handle) Admitted ⟨tenDiamonds, []⟩
        (run (World.step handle) ⟨tenDiamonds, []⟩ twoCounters) ∧
      (run (World.step handle) ⟨tenDiamonds, []⟩ twoCounters).state.assetDatas "diamond" =
        some (-10) := by
  refine ⟨reach_run ?_, by decide +kernel⟩
  decide +kernel

end JyQipai.AssetManage.Purchase
