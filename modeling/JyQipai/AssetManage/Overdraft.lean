import JyQipai.AssetManage.Purchase

/-!
# Purchases and the balance

A request that has passed its check has the price reserved until it pays.  The check
reads the whole balance, so it takes no account of what others have reserved: the
balance stays covered if no purchase is checked and unpaid while another one is
checked.
-/

namespace JyQipai.AssetManage.Purchase

open JyQipai.Lib Account

/-! ## What a change does -/

structure Still (s t : Account) : Prop where
  datas : t.assetDatas = s.assetDatas
  shop : t.shopingConfig = s.shopingConfig
  lock : t.actLock = s.actLock
  coin : t.playerObjectId "jing_bi" = s.playerObjectId "jing_bi"

theorem Still.refl (s : Account) : Still s s := ⟨rfl, rfl, rfl, rfl⟩

theorem Still.trans {s t u : Account} (h : Still s t) (h' : Still t u) : Still s u :=
  ⟨h'.datas.trans h.datas, h'.shop.trans h.shop, h'.lock.trans h.lock, h'.coin.trans h.coin⟩

def IsObject : Ask → Prop
  | .changeObject .. => True
  | _ => False

def Named : Change → Prop
  | .amount .. => True
  | .object t _ attr _ _ => attr ≠ none → isObjectAsset t

theorem Gives.named {c : Change} (h : Gives c) : Named c := by
  cases c with
  | amount a id => trivial
  | object t id attr num condi => exact h

section Change

variable {s : Account} {c : Change}

theorem still_save (saveDb : Bool) (m : Sent) (s : Account) : Still s (save saveDb m s) := by
  unfold save
  split
  · exact ⟨rfl, rfl, rfl, rfl⟩
  · exact .refl s

theorem goes_deleteObj (id : ObjectId) (obj : Obj) (t : Option AssetType)
    (saveDb isNotChangeNum : Bool) (s : Account) :
    (deleteObj id obj t saveDb isNotChangeNum s).Goes Still IsObject s := by
  have hdrop : Still s
      ((save saveDb (.changeObject id obj.objectType none) s).dropObject id) :=
    (still_save saveDb _ s).trans ⟨rfl, rfl, rfl, rfl⟩
  unfold deleteObj
  dsimp only
  split
  · exact hdrop
  · split
    · exact hdrop
    · split
      · exact hdrop
      · exact hdrop.trans ⟨rfl, rfl, rfl, rfl⟩

theorem goes_addObj {t : AssetType} (ht : t ≠ "jing_bi") (attr : Attribute)
    (isNotChangeNum : Bool) (id : Option ObjectId) (s : Account) :
    (addObj t attr isNotChangeNum id s).Goes Still IsObject s := by
  have hnum : Still s (if isNotChangeNum then s
      else s.setNum t ((s.playerObjectNum t).getD 0 + 1)) := by
    split
    · exact .refl s
    · exact ⟨rfl, rfl, rfl, rfl⟩
  unfold addObj
  dsimp only
  split
  · exact hnum
  · exact hnum.trans ⟨rfl, rfl, rfl, Function.update_of_ne ht.symm _ _⟩

theorem goes_changeObj {o : ObjData} (ho : o.attr ≠ none → o.objectType ≠ some "jing_bi")
    (saveDb isNotChangeNum : Bool) (s : Account) :
    (changeObj o saveDb isNotChangeNum s).Goes Still IsObject s := by
  unfold changeObj
  split
  · split
    · exact Still.refl s
    · exact (still_save saveDb _ s).trans ⟨rfl, rfl, rfl, rfl⟩
    · exact goes_deleteObj _ _ _ _ _ s
  · split
    · next hattr htype =>
      have ht : ∀ t, o.objectType = some t → t ≠ "jing_bi" := by
        rintro t h rfl
        exact ho (by simp [hattr]) h
      split
      · refine ⟨.refl s, trivial, fun a u => ?_⟩
        cases a with
        | object id => exact goes_addObj (ht _ htype) _ _ _ u
        | _ => exact Still.refl u
      · exact goes_addObj (ht _ htype) _ _ _ s
    · exact Still.refl s

theorem goes_changeObjs {o : ObjData} (ho : o.attr ≠ none → o.objectType ≠ some "jing_bi")
    (saveDb : Bool) (n : Nat) (s : Account) :
    (changeObjs o saveDb n s).Goes Still IsObject s := by
  induction n generalizing s with
  | zero => exact Still.refl s
  | succ n ih => exact (goes_changeObj ho saveDb false s).bind .trans fun _ t => ih t

theorem isObjectAsset_ne {t : AssetType} (h : isObjectAsset t) : t ≠ "jing_bi" := by
  rintro rfl
  revert h
  decide +kernel

theorem changeOne_cases (hc : Named c) (s : Account) :
    (∃ t, changeOne true c s = .done t () ∧ t.shopingConfig = s.shopingConfig ∧
      t.actLock = s.actLock ∧ t.playerObjectId "jing_bi" = s.playerObjectId "jing_bi" ∧
      ∀ x, (t.assetDatas x).getD 0 = (s.assetDatas x).getD 0 + worth c x) ∨
    (∀ x, worth c x = 0) ∧ (∀ a id, c = .amount a id → a.assetType = "jipaiqi") ∧
      (changeOne true c s).Goes Still IsObject s := by
  cases c with
  | amount a id =>
      rw [changeOne]
      by_cases hcondi : a.condiType = none ∨ a.condiType = some .consume
      · rw [if_pos hcondi]
        by_cases hskip : a.value = 0 ∨ isDressAsset a.assetType
        · rw [if_pos hskip]
          refine .inl ⟨s, rfl, rfl, rfl, rfl, fun x => ?_⟩
          rcases hskip with h | h <;> simp [worth, h]
        · rw [if_neg hskip]
          by_cases hj : a.assetType = "jipaiqi"
          · rw [if_pos hj]
            refine .inr ⟨fun x => by simp [worth, hj], ?_, ?_⟩
            · rintro a' id' ⟨⟩
              exact hj
            · split
              · exact Still.refl s
              · exact goes_changeObj (fun _ => by simp) true false s
          · rw [if_neg hj]
            rw [not_or] at hskip
            refine .inl ⟨_, rfl, rfl, rfl, rfl, fun x => ?_⟩
            change (Function.update s.assetDatas a.assetType _ x).getD 0 = _
            by_cases hx : x = a.assetType
            · subst hx
              rw [Function.update_self, Option.getD_some]
              simp [worth, hcondi, hskip.2, hj]
            · rw [Function.update_of_ne hx]
              simp [worth, Ne.symm hx]
      · rw [if_neg hcondi]
        refine .inl ⟨s, rfl, rfl, rfl, rfl, fun x => ?_⟩
        simp [worth, hcondi]
  | object t id attr num condi =>
      refine .inr ⟨fun _ => rfl, by simp, ?_⟩
      rw [changeOne]
      split
      · split
        · exact Still.refl s
        · refine goes_changeObjs (fun hattr => ?_) true _ s
          simpa using isObjectAsset_ne (hc hattr)
      · exact Still.refl s

theorem worth_nonneg (hc : Gives c) (x : AssetType) : 0 ≤ worth c x := by
  cases c with
  | amount a id =>
      rw [worth]
      split
      · exact hc
      · exact le_refl 0
  | object t id attr num condi => exact le_refl 0

theorem worth_taken {price : AssetType × Int} (h : IsCoin price.1) (x : AssetType) :
    worth (taken price) x = - if x = price.1 then price.2 else 0 := by
  by_cases hx : x = price.1
  · subst hx
    simp [worth, taken, h.1, h.2]
  · simp [worth, taken, hx, Ne.symm hx]

theorem changeOne_taken {price : AssetType × Int} (h : IsCoin price.1) (s : Account) :
    ∃ t, changeOne true (taken price) s = .done t () ∧
      t.shopingConfig = s.shopingConfig ∧ t.actLock = s.actLock ∧
      t.playerObjectId "jing_bi" = s.playerObjectId "jing_bi" ∧
      ∀ x, (t.assetDatas x).getD 0 =
        (s.assetDatas x).getD 0 - if x = price.1 then price.2 else 0 := by
  rcases changeOne_cases (c := taken price) trivial s with
    ⟨t, heq, hshop, hlock, hcoin, hdatas⟩ | ⟨-, hobject, -⟩
  · refine ⟨t, heq, hshop, hlock, hcoin, fun x => ?_⟩
    rw [hdatas, worth_taken h, sub_eq_add_neg]
  · exact absurd (hobject _ _ rfl) h.1

end Change

/-! ## What requests own -/

abbrev Share := (AssetType → Int) × Nat

def IsCheck : Ask → Prop
  | .getConfig _ | .lotteryLuckBox .. => True
  | _ => False

instance : DecidablePred IsCheck
  | .getConfig _ | .lotteryLuckBox .. => isTrue trivial
  | .changeObject .. | .checkLotteryStatus .. | .lotteryExpression .. => isFalse id

/-- The request has checked the balance and waits for what it delivers; it pays
afterwards. -/
def Unpaid : Purchase × Ask → Prop
  | (.exchangeGoods (some t) _, .changeObject ..) => t = "jipaiqi"
  | _ => False

def owning : Owning Account (Purchase × Ask) Answer Share where
  valid x := Valid x.2
  keeps s := SaneShop s.shopingConfig ∧ s.playerObjectId "jing_bi" = none
  holds s g := (∀ x, g.1 x ≤ (s.assetDatas x).getD 0) ∧ g.2 ≤ 1 ∧ (g.2 = 1 → s.actLock)
  may x g := 0 ≤ g.1 ∧ (g.1 = 0 ∨ g.2 = 1 ∨ Unpaid x) ∧ (IsCheck x.2 → g.2 = 1)
  frame x _ _ f := IsCheck x.2 → f.1 = 0

abbrev owningOf (r : Purchase) : Owning Account Ask Answer Share := owning.comap (Prod.mk r)

def reserve (price : AssetType × Int) (x : AssetType) : Int :=
  if x = price.1 then max price.2 0 else 0

theorem reserve_nonneg (price : AssetType × Int) : 0 ≤ reserve price := by
  intro x
  rw [reserve, Pi.zero_apply]
  split
  · exact le_max_right _ _
  · exact le_refl 0

section Turns

variable {r : Purchase} {fr : Share → Prop} {s t : Account} {g g' : Share}

theorem turns_of (ht : (owningOf r).keeps t) (hlock : t.actLock = s.actLock)
    (hg : g'.2 ≤ g.2)
    (hdatas : ∀ f, fr f → (∀ x, g.1 x + f.1 x ≤ (s.assetDatas x).getD 0) →
      ∀ x, g'.1 x + f.1 x ≤ (t.assetDatas x).getD 0) :
    (owningOf r).Turns fr s g t g' := by
  refine ⟨ht, fun f hf hs => ⟨hdatas f hf hs.1, ?_, fun h => ?_⟩⟩
  · have := hs.2.1
    simp only [Prod.snd_add] at this ⊢
    omega
  · rw [hlock]
    have := hs.2.1
    refine hs.2.2 ?_
    simp only [Prod.snd_add] at this h ⊢
    omega

theorem turns_drop (ht : (owningOf r).keeps t) (h : Still s t) (hg : 0 ≤ g.1) :
    (owningOf r).Turns fr s g t 0 := by
  refine turns_of ht h.lock (Nat.zero_le _) fun f _ hs x => ?_
  have := hs x
  have := hg x
  rw [h.datas]
  simp only [Prod.fst_zero, Pi.zero_apply] at this ⊢
  omega

theorem turns_still (ht : (owningOf r).keeps t) (h : Still s t) :
    (owningOf r).Turns fr s g t g :=
  turns_of ht h.lock (le_refl _) fun f _ hs x => by
    rw [h.datas]
    exact hs x

theorem turns_reserve (hs : (owningOf r).keeps s) (hfr : ∀ f, fr f → f.1 = 0)
    (price : AssetType × Int) (hprice : price.2 ≤ (s.assetDatas price.1).getD 0) (k : Nat) :
    (owningOf r).Turns fr s (0, k) s (reserve price, k) := by
  refine turns_of hs rfl (le_refl _) fun f hf hfs x => ?_
  have hfs := hfs x
  rw [hfr f hf] at hfs ⊢
  simp only [Pi.zero_apply, reserve] at hfs ⊢
  split
  · next hx =>
    subst hx
    omega
  · omega

theorem turns_lock (hs : (owningOf r).keeps s) (h : s.actLock = false) :
    (owningOf r).Turns fr s 0 s.lockAct (0, 1) := by
  refine ⟨hs, fun f _ hfs => ⟨hfs.1, ?_, fun _ => rfl⟩⟩
  have hle := hfs.2.1
  have hfree : (0 + f : Share).2 ≠ 1 := by
    intro hone
    have := hfs.2.2 hone
    rw [h] at this
    cases this
  simp only [Prod.snd_add, Prod.snd_zero] at hle hfree ⊢
  omega

theorem turns_unlock (hs : (owningOf r).keeps s) (hg : 0 ≤ g.1) (hlock : g.2 = 1) :
    (owningOf r).Turns fr s g s.unlockAct 0 := by
  refine ⟨hs, fun f _ hfs => ⟨fun x => ?_, ?_, fun hone => ?_⟩⟩
  · have := hfs.1 x
    have := hg x
    simp only [Prod.fst_add, Pi.add_apply, Prod.fst_zero, Pi.zero_apply] at *
    change 0 + f.1 x ≤ (s.assetDatas x).getD 0
    omega
  · have := hfs.2.1
    simp only [Prod.snd_add, Prod.snd_zero] at *
    omega
  · have := hfs.2.1
    simp only [Prod.snd_add, Prod.snd_zero] at *
    omega

end Turns

section Owns

variable {r : Purchase} {fr : Share → Prop} {s : Account} {g : Share}

abbrev NothingLeft (_ : Int) (_ : Account) (g : Share) : Prop := g = 0

theorem owns_changeOne {c : Change} (hc : Gives c) (hs : (owningOf r).keeps s)
    (hg : 0 ≤ g.1)
    (hmay : (∀ a id, c = .amount a id → a.assetType = "jipaiqi") →
      ∀ q, IsObject q → (owningOf r).may q g) :
    (changeOne true c s).Owns (owningOf r) (fun _ _ g' => g' = g) fr s g := by
  rcases changeOne_cases hc.named s with
    ⟨t, heq, hshop, hlock, hcoin, hdatas⟩ | ⟨-, hobject, hgoes⟩
  · rw [heq]
    refine ⟨g, turns_of ⟨hshop ▸ hs.1, hcoin ▸ hs.2⟩ hlock (le_refl _) fun f _ hfs x => ?_,
      rfl⟩
    have := hfs x
    have := worth_nonneg hc x
    have := hdatas x
    omega
  · refine Prog.Owns.of_goes hgoes hs (fun fr s t hs h => ?_) (hmay hobject)
      (fun fr s t hs h => ?_)
    · exact turns_still ⟨h.shop ▸ hs.1, h.coin ▸ hs.2⟩ h
    · exact turns_drop ⟨h.shop ▸ hs.1, h.coin ▸ hs.2⟩ h hg

theorem owns_changeAssetMulti {l : List Change} (hl : ∀ c ∈ l, Gives c)
    (hs : (owningOf r).keeps s) (k : Nat) :
    (changeAssetMulti true l s).Owns (owningOf r) (fun _ _ g' => g' = (0, k)) fr s
      (0, k) := by
  induction l generalizing fr s with
  | nil => exact ⟨_, turns_still hs (.refl s), rfl⟩
  | cons c l ih =>
      rw [changeAssetMulti]
      refine Prog.Owns.bind (owns_changeOne (hl c List.mem_cons_self) hs (le_refl _)
        fun _ q hq => ⟨le_refl _, .inl rfl, fun hcheck => ?_⟩) fun fr _ t g ht hg => ?_
      · cases q with
        | changeObject => exact hcheck.elim
        | _ => exact hq.elim
      · subst hg
        exact ih (fun c hc => hl c (List.mem_cons_of_mem _ hc)) ht

theorem owns_taken {price : AssetType × Int} {l : List Change} (hprice : IsCoin price.1)
    (hl : ∀ c ∈ l, Gives c) (hs : (owningOf r).keeps s) (k : Nat) :
    (changeAssetMulti true (taken price :: l) s).Owns (owningOf r)
      (fun _ _ g' => g' = (0, k)) fr s (reserve price, k) := by
  obtain ⟨t, heq, hshop, hlock, hcoin, hdatas⟩ := changeOne_taken hprice s
  have ht : (owningOf r).keeps t := ⟨hshop ▸ hs.1, hcoin ▸ hs.2⟩
  simp only [changeAssetMulti, heq, Prog.bind]
  have hpaid : (owningOf r).Turns fr s (reserve price, k) t (0, k) := by
    refine turns_of ht hlock (le_refl _) fun f _ hfs x => ?_
    have hfs := hfs x
    rw [hdatas]
    simp only [reserve, Pi.zero_apply] at hfs ⊢
    by_cases hx : x = price.1
    · rw [if_pos hx] at hfs ⊢
      omega
    · rw [if_neg hx] at hfs ⊢
      omega
  exact (owns_changeAssetMulti hl ht k).of_turns hpaid

/-! ### The three requests -/

theorem mem_of_lookup {α β : Type} [DecidableEq α] {l : List (α × β)} {k : α} {b : β}
    (h : l.lookup k = some b) : (k, b) ∈ l := by
  obtain ⟨l₁, l₂, rfl, -⟩ := List.lookup_eq_some_iff.mp h
  exact List.mem_append_right _ List.mem_cons_self

theorem saneShop_good (hs : SaneShop s.shopingConfig) {t : AssetType} {id : Int} {row : Good}
    (h : s.good t id = some row) : (∀ p ∈ row.use, IsCoin p.1) ∧ 0 ≤ row.num ∧
      ∀ n ∈ row.giftAssetCount, 0 ≤ n := by
  unfold good at h
  rw [Option.bind_eq_some_iff] at h
  obtain ⟨rows, hrows, hrow⟩ := h
  exact hs _ (mem_of_lookup hrows) _ (mem_of_lookup hrow)

theorem gives_gifts {row : Good} (h : ∀ n ∈ row.giftAssetCount, 0 ≤ n) :
    ∀ c ∈ row.gifts, Gives c := by
  intro c hc
  obtain ⟨⟨t, i⟩, -, hc⟩ := List.mem_filterMap.mp hc
  dsimp only at hc
  split at hc
  · obtain rfl := Option.some.inj hc
    cases hi : row.giftAssetCount[i]? with
    | none => simp [delivered, Gives]
    | some n => exact h n (List.mem_of_getElem? hi)
  · cases hc

theorem isCoin_of_expression (hs : SaneShop s.shopingConfig) {group : AssetType} {time : Int}
    {price : AssetType × Int} (h : s.expression group time = some (some price)) :
    IsCoin price.1 := by
  unfold expression at h
  rw [Option.map_eq_some_iff] at h
  obtain ⟨rows, hrows, hprice⟩ := h
  rw [Option.bind_eq_some_iff] at hprice
  obtain ⟨row, hrow, huse⟩ := hprice
  exact (hs _ (mem_of_lookup hrows) row (List.mem_of_find?_eq_some hrow)).1 price huse

theorem turns_setConfig (hs : (owningOf r).keeps s) {c : Option (ShopConfig × Int)}
    (hc : ∀ x ∈ c, SaneShop x.1) :
    (owningOf r).Turns fr s g (s.setConfig c) g := by
  cases c with
  | none => exact turns_still hs (.refl s)
  | some c => exact turns_of ⟨hc c rfl, hs.2⟩ rfl (le_refl _) fun f _ hfs => hfs

theorem owns_exchangeRow {t : AssetType} {id : Int} {row : Good}
    (hs : (owningOf (.exchangeGoods (some t) (some id))).keeps s)
    (hrow : s.good t id = some row) (hfr : ∀ f, fr f → f.1 = 0) :
    (exchangeRow t row s).Owns (owningOf (.exchangeGoods (some t) (some id)))
      NothingLeft fr s 0 := by
  obtain ⟨hprice, hnum, hgifts⟩ := saneShop_good hs.1 hrow
  unfold exchangeRow
  split
  · exact turns_still hs (.refl s)
  · next price huse =>
    have hcoin := hprice price huse
    split
    · exact ⟨0, turns_still hs (.refl s), rfl⟩
    · next henough =>
      split
      · refine Prog.Owns.of_turns (turns_reserve hs hfr _ (not_lt.mp henough) 0) ?_
        refine Prog.Owns.bind (Q := fun _ _ g => g = 0) ?_ fun fr _ u g hu hg =>
          ⟨g, turns_still hu (.refl u), hg⟩
        rw [changeAssetMulti]
        refine Prog.Owns.bind (owns_changeOne hnum hs (reserve_nonneg price)
          fun hj q hq => ⟨reserve_nonneg price, .inr (.inr ?_), fun hcheck => ?_⟩)
          fun fr _ u g hu hg => hg ▸ owns_taken hcoin (gives_gifts hgifts) hu 0
        · cases q with
          | changeObject => exact hj _ _ rfl
          | _ => exact hq.elim
        · cases q with
          | changeObject => exact hcheck.elim
          | _ => exact hq.elim
      · exact ⟨0, turns_still hs (.refl s), rfl⟩

theorem owns_payExchangeGoods (goodsType : Option AssetType) (goodsId : Option Int)
    (hs : (owningOf (.exchangeGoods goodsType goodsId)).keeps s) :
    (payExchangeGoods goodsType goodsId s).Owns
      (owningOf (.exchangeGoods goodsType goodsId)) NothingLeft fr s 0 := by
  unfold payExchangeGoods
  split
  · exact ⟨0, turns_still hs (.refl s), rfl⟩
  · next hfree =>
    refine ⟨(0, 1), turns_lock hs (by simpa using hfree), ⟨le_refl _, .inl rfl, fun _ => rfl⟩,
      fun a u ha hu => ?_⟩
    cases a with
    | config c =>
        have hset : (owningOf (.exchangeGoods goodsType goodsId)).Turns
            (owning.frame (.exchangeGoods goodsType goodsId, .getConfig s.shopingConfigVersion)
              (.config c) u)
            u (0, 1) (u.setConfig c) (0, 1) := turns_setConfig hu ha
        have hopen := hset.trans (turns_unlock hset.1 (le_refl _) rfl)
        refine Prog.Owns.of_turns hopen ?_
        dsimp only [Prog.bind]
        split
        · next t id =>
          split
          · next row hrow => exact owns_exchangeRow hopen.1 hrow fun f hf => hf trivial
          · exact ⟨0, turns_still hopen.1 (.refl _), rfl⟩
        · exact ⟨0, turns_still hopen.1 (.refl _), rfl⟩
    | _ => exact ha.elim

theorem owns_drawExpression {type : AssetType} {time : Int} {time' : Option Int}
    (hs : (owningOf (.lottery type time')).keeps s) :
    (drawExpression type time s).Owns (owningOf (.lottery type time')) NothingLeft fr s
      (0, 1) := by
  refine ⟨(0, 1), turns_still hs (.refl s), ⟨le_refl _, .inl rfl, False.elim⟩,
    fun a u ha hu => ?_⟩
  cases a with
  | lottery l =>
      exact (owns_changeAssetMulti ha hu 1).bind fun fr _ v g hv hg =>
        ⟨0, hg ▸ turns_unlock hv (le_refl _) rfl, rfl⟩
  | _ => exact ha.elim

theorem owns_buyExpression {type : AssetType} {time : Int} {time' : Option Int}
    {price : AssetType × Int} (hs : (owningOf (.lottery type time')).keeps s)
    (hprice : IsCoin price.1) (hfr : ∀ f, fr f → f.1 = 0) :
    (buyExpression type time price s).Owns (owningOf (.lottery type time')) NothingLeft
      fr s (0, 1) := by
  unfold buyExpression
  split
  · exact ⟨0, turns_unlock hs (le_refl _) rfl, rfl⟩
  · next henough =>
    refine ⟨(reserve price, 1), turns_reserve hs hfr price (not_lt.mp henough) 1,
      ⟨reserve_nonneg price, .inr (.inl rfl), False.elim⟩, fun a u ha hu => ?_⟩
    cases a with
    | status n =>
        dsimp only
        split
        · exact ⟨0, turns_unlock hu (reserve_nonneg price) rfl, rfl⟩
        · exact (owns_taken hprice (by simp) hu 1).bind fun fr _ v g hv hg =>
            hg ▸ owns_drawExpression hv
    | _ => exact ha.elim

theorem owns_payLottery (type : AssetType) (time : Option Int)
    (hs : (owningOf (.lottery type time)).keeps s) :
    (payLottery type time s).Owns (owningOf (.lottery type time)) NothingLeft fr s 0 := by
  unfold payLottery
  split
  · exact ⟨0, turns_still hs (.refl s), rfl⟩
  · split
    · exact ⟨0, turns_still hs (.refl s), rfl⟩
    · next time =>
      split
      · exact ⟨0, turns_still hs (.refl s), rfl⟩
      · next hfree =>
        refine ⟨(0, 1), turns_lock hs (by simpa using hfree),
          ⟨le_refl _, .inl rfl, fun _ => rfl⟩, fun a u ha hu => ?_⟩
        cases a with
        | config c =>
            have hset : (owningOf (.lottery type (some time))).Turns
                (owning.frame (.lottery type (some time), .getConfig s.shopingConfigVersion)
                  (.config c) u)
                u (0, 1) (u.setConfig c) (0, 1) := turns_setConfig hu ha
            refine Prog.Owns.of_turns hset ?_
            dsimp only [Prog.bind]
            split
            · exact turns_drop hset.1 (.refl _) (le_refl _)
            · exact ⟨0, turns_unlock hset.1 (le_refl _) rfl, rfl⟩
            · next price hprice =>
              exact owns_buyExpression hset.1 (isCoin_of_expression hset.1.1 hprice)
                fun f hf => hf trivial
        | _ => exact ha.elim

theorem isCoin_jingBi : IsCoin "jing_bi" := by
  refine ⟨by decide, ?_⟩
  decide +kernel

theorem owns_buyLuckBox {id : Option Int} {consume : Int} {assets : Change}
    (hs : (owningOf (.luckBox id)).keeps s) (hassets : Gives assets)
    (hfr : ∀ f, fr f → f.1 = 0) :
    (buyLuckBox consume assets s).Owns (owningOf (.luckBox id)) NothingLeft fr s 0 := by
  have hread : s.queryAssetByType "jing_bi" = (s.assetDatas "jing_bi").getD 0 := by
    unfold queryAssetByType
    rw [hs.2]
    cases s.assetDatas "jing_bi" <;> rfl
  unfold buyLuckBox
  split
  · exact ⟨0, turns_still hs (.refl s), rfl⟩
  · next henough =>
    rw [hread] at henough
    refine Prog.Owns.of_turns (turns_reserve hs hfr ("jing_bi", consume)
      (not_lt.mp henough) 0) ?_
    exact (owns_taken isCoin_jingBi (by simpa using hassets) hs 0).bind fun fr _ u g hu hg =>
      ⟨g, turns_still hu (.refl u), hg⟩

theorem owns_payLotteryLuckBox (id : Option Int) (hs : (owningOf (.luckBox id)).keeps s) :
    (payLotteryLuckBox id s).Owns (owningOf (.luckBox id)) NothingLeft fr s 0 := by
  unfold payLotteryLuckBox
  split
  · exact ⟨0, turns_still hs (.refl s), rfl⟩
  · next hfree =>
    split
    · exact ⟨0, turns_still hs (.refl s), rfl⟩
    · next id =>
      refine ⟨(0, 1), turns_lock hs (by simpa using hfree),
        ⟨le_refl _, .inl rfl, fun _ => rfl⟩, fun a u ha hu => ?_⟩
      have hopen : (owningOf (.luckBox (some id))).Turns
          (owning.frame (.luckBox (some id), .lotteryLuckBox id 0) a u) u (0, 1) u.unlockAct 0 :=
        turns_unlock hu (le_refl _) rfl
      cases a with
      | status n => exact ⟨0, hopen, rfl⟩
      | luckBox consume assets =>
          exact (owns_buyLuckBox hopen.1 ha fun f hf => hf trivial).of_turns hopen
      | _ => exact ha.elim

theorem owns_handle (e : Event) (hs : owning.keeps s) :
    (handle e s).Owns owning NothingLeft fr s 0 := by
  cases e with
  | tick now =>
      exact ⟨0, turns_of (r := .luckBox none) hs rfl (le_refl _) fun f _ hfs => hfs, rfl⟩
  | request r =>
      refine Prog.Owns.mapAsk ?_
      cases r with
      | exchangeGoods goodsType goodsId => exact owns_payExchangeGoods goodsType goodsId hs
      | lottery type time => exact owns_payLottery type time hs
      | luckBox id => exact owns_payLotteryLuckBox id hs

end Owns

/-! ## Runs -/

abbrev Admitted : World Account (Purchase × Ask) Answer Int → Input Event Answer → Prop :=
  World.Admits (fun x => Valid x.2) (fun _ _ => True) fun _ => True

/-- No request comes to its check while a purchase is checked and unpaid. -/
def NoneUnpaid (w : World Account (Purchase × Ask) Answer Int) : Input Event Answer → Prop
  | .command _ => True
  | .answer i _ => ∀ x ∈ w.waiting[i]?, IsCheck x.1.2 → ∀ y ∈ w.waiting, ¬ Unpaid y.1

section Runs

variable {w : World Account (Purchase × Ask) Answer Int} {gs : List Share}
  {waiting : List ((Purchase × Ask) × (Answer → Handler Account (Purchase × Ask) Answer Int))}

theorem shares_nonneg (h : List.Forall₂ (World.Waits owning) waiting gs) :
    0 ≤ gs.sum.1 := by
  induction h with
  | nil => exact le_refl _
  | cons hwait _ ih =>
      intro x
      have := hwait.1.1 x
      have := ih x
      simp only [List.sum_cons, Prod.fst_add, Pi.add_apply, Pi.zero_apply] at *
      omega

theorem shares_zero (h : List.Forall₂ (World.Waits owning) waiting gs)
    (hpaid : ∀ y ∈ waiting, ¬ Unpaid y.1) (hfree : gs.sum.2 = 0) : gs.sum.1 = 0 := by
  induction h with
  | nil => rfl
  | @cons y g waiting gs hwait _ ih =>
      rw [List.sum_cons, Prod.snd_add] at hfree
      rw [List.sum_cons, Prod.fst_add,
        ih (fun y hy => hpaid y (List.mem_cons_of_mem _ hy)) (by omega), add_zero]
      rcases hwait.1.2.1 with hzero | hlock | hunpaid
      · exact hzero
      · omega
      · exact absurd hunpaid (hpaid y List.mem_cons_self)

theorem framed {i : Nat} {a : Answer} (h : NoneUnpaid w (.answer i a)) :
    w.Framed owning i a := by
  intro x hx g rest hholds hwait hrest hcheck
  have hone := hwait.1.2.2 hcheck
  have hle := hholds.2.1
  rw [Prod.snd_add] at hle
  exact shares_zero hrest
    (fun y hy => h x hx hcheck y (List.mem_of_mem_eraseIdx hy)) (by omega)

theorem owned_of_reach {s : Account} (hs : owning.keeps s)
    (hcover : ∀ x, 0 ≤ (s.assetDatas x).getD 0)
    (h : Reach (World.step handle) (fun w i => Admitted w i ∧ NoneUnpaid w i) ⟨s, []⟩ w) :
    w.Owned owning := by
  have hstart : World.Owned owning (⟨s, []⟩ : World Account (Purchase × Ask) Answer Int) := by
    refine ⟨hs, [], ⟨hcover, Nat.zero_le 1, fun hone => ?_⟩, .nil⟩
    cases hone
  refine Reach.invariant hstart (fun w i hw hi => ?_) h
  refine hw.step (fun s e hs _ => owns_handle e hs) hi.1 fun j a hj => ?_
  subst hj
  exact framed hi.2

theorem covered_of_reach {s : Account} (hs : owning.keeps s)
    (hcover : ∀ x, 0 ≤ (s.assetDatas x).getD 0)
    (h : Reach (World.step handle) (fun w i => Admitted w i ∧ NoneUnpaid w i) ⟨s, []⟩ w)
    (x : AssetType) : 0 ≤ (w.state.assetDatas x).getD 0 := by
  obtain ⟨-, gs, hholds, hwait⟩ := owned_of_reach hs hcover h
  exact (shares_nonneg hwait x).trans (hholds.1 x)

end Runs

end JyQipai.AssetManage.Purchase
