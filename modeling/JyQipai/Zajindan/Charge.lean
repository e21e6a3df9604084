import JyQipai.Zajindan.Agent

/-!
# Strikes and their price

A request that has paid waits for the room.  When the room strikes the egg, the request has
taken its price once, and the other requests have not touched it.
-/

namespace JyQipai.Zajindan

open Lib AssetManage

namespace Agent

def changesOf (s : Agent) (n : Nat) : List (AssetType × Int) :=
  (s.spent.filter fun c => c.request = some n).map fun c => (c.assetType, c.value)

def owedOf (s : Agent) (n : Nat) : List Price :=
  (s.owed.filter fun x => x.1 = n).map Prod.snd

def spentOf (s : Agent) (assetType : AssetType) : Int :=
  ((s.spent.filter fun c => c.assetType = assetType).map Spend.value).sum

def NoDebt (s : Agent) : Prop := ∀ level : Int, 0 ≤ s.assetDatas (hammerOf level)

end Agent

def unit (assetType : AssetType) : Int :=
  if assetType = "jing_bi" then 1
  else
    ((([1, 2, 3, 4] : List Nat).find? fun i : Nat => hammerOf i = assetType).map
      Agent.hammerPrice).getD 0

def worth (l : List (AssetType × Int)) : Int := (l.map fun c => -c.2 * unit c.1).sum

def Price.Paid : Price → List (AssetType × Int) → Prop
  | .strike level baseMoney, l =>
      l = [(hammerOf level, -1)] ∨ l = if 0 < baseMoney then [("jing_bi", -baseMoney)] else []
  | .caishen level, l => worth l = Agent.caishenMoney level * 19 ∧ ∀ c ∈ l, c.2 < 0
  | .eggs money, l => l = if money = 0 then [] else [("jing_bi", -money)]

def Response.Owes : Response → Price → Prop
  | .strike _ level _ _ _ _ _, .strike l _ => l = level
  | .strike _ _ eggNo _ _ _ _, .caishen l => l = Agent.realLevel eggNo
  | .eggs _ _ _, .eggs _ => True
  | _, _ => False

/-- A request that fails has changed nothing, and one that does not has taken its price. -/
def Response.Good (s : Agent) (n : Nat) : Response → Prop
  | .error _ => s.changesOf n = []
  | .hammer _ => s.changesOf n = []
  | r => ∃ price, s.owedOf n = [price] ∧ r.Owes price ∧ price.Paid (s.changesOf n)

def Call.lock : Call → Lock
  | .playerTriggerCondition _ | .zaJinDan _ _ | .zjdCaishenMode _ _ => .kaijiang
  | .replaceEggs _ _ => .replaceEggs
  | .zjdReplaceHammer _ => .replaceHammer

/-- The amounts are those of the start with all changes; each request was charged as it was
answered; and a lock is held only by a request that waits. -/
structure Charged (start : AssetType → Int) (w : World Agent Call Answer Unit) : Prop where
  balance : ∀ t, w.state.assetDatas t = start t + w.state.spentOf t
  ended : ∀ x ∈ w.state.ended, x.2.Good w.state x.1
  released : ∀ lock, w.state.actionLock lock = true → ∃ x ∈ w.waiting, x.1.lock = lock

structure Agent.Started (s : Agent) : Prop where
  unlocked : ∀ lock, s.actionLock lock = false
  spent : s.spent = []
  owed : s.owed = []
  ended : s.ended = []

/-- The room and the shop answer; a request that has paid is carried out, and one that has not
may be refused. -/
def Answered : Call → Answer → Prop
  | .playerTriggerCondition _, a => ∃ n, a = .giftShow n
  | .zaJinDan _ _, a => ∃ data kaijiang, a = .struck data kaijiang ∧ data.eggsStatus ≠ none
  | .zjdCaishenMode _ _, a => ∃ kaijiang, a = .caishen kaijiang
  | .replaceEggs _ isSpendMoney, a =>
      (∃ data awardList, a = .eggs data awardList) ∨
        isSpendMoney = false ∧ ∃ code, a = .number code
  | .zjdReplaceHammer _, a =>
      a = .callFail ∨ (∃ code, a = .number code) ∨ ∃ id, a = .hammer id

/-- Eggs are replaced of a game that is known, which pays nothing for it. -/
def Known (s : Agent) : Event → Prop
  | .zjdReplaceEggs (some level) =>
      s.gamingHammerId = some level → ∃ data ∈ s.hammerGameData level, 0 ≤ data.replaceMoney
  | _ => True

/-! ## Changes of one request -/

namespace Agent

variable {s t u : Agent} {n : Nat}

theorem changesOf_changeAsset (request : Option Nat) (assetType : AssetType) (value : Int)
    (m : Nat) : (s.changeAsset request assetType value).changesOf m =
      s.changesOf m ++ if value ≠ 0 ∧ request = some m then [(assetType, value)] else [] := by
  unfold changeAsset
  by_cases hv : value = 0
  · simp [hv]
  · rw [if_neg hv, changesOf, List.filter_append, List.map_append]
    by_cases hr : request = some m
    · simp [hv, hr, changesOf]
    · simp [hr, changesOf]

theorem spentOf_changeAsset (request : Option Nat) (assetType t : AssetType) (value : Int) :
    (s.changeAsset request assetType value).spentOf t =
      s.spentOf t + if assetType = t then value else 0 := by
  unfold changeAsset
  by_cases hv : value = 0
  · simp [hv]
  · rw [if_neg hv, spentOf, List.filter_append, List.map_append, List.sum_append]
    by_cases ht : assetType = t
    · simp [ht, spentOf]
    · simp [ht, spentOf]

theorem assetDatas_changeAsset (request : Option Nat) (assetType t : AssetType) (value : Int) :
    (s.changeAsset request assetType value).assetDatas t =
      s.assetDatas t + if assetType = t then value else 0 := by
  unfold changeAsset
  by_cases hv : value = 0
  · simp [hv]
  · rw [if_neg hv]
    by_cases ht : assetType = t
    · subst ht
      simp
    · simp [ht, Ne.symm ht]

theorem owedOf_owe (price : Price) (m : Nat) : (s.owe n price).owedOf m =
    s.owedOf m ++ if n = m then [price] else [] := by
  rw [owedOf, owe, List.filter_append, List.map_append]
  by_cases h : n = m <;> simp [h, owedOf]

/-- Only what belongs to the request `n` is changed, and no game is forgotten. -/
structure Only (n : Nat) (s t : Agent) : Prop where
  changes : ∀ m, m ≠ n → t.changesOf m = s.changesOf m
  owed : ∀ m, m ≠ n → t.owedOf m = s.owedOf m
  requests : t.requests = s.requests
  ended : t.ended = s.ended
  games : ∀ level, s.hammerGameData level ≠ none → t.hammerGameData level ≠ none
  balance : ∀ x, t.assetDatas x - t.spentOf x = s.assetDatas x - s.spentOf x

namespace Only

protected theorem refl (n : Nat) (s : Agent) : Only n s s :=
  ⟨fun _ _ => rfl, fun _ _ => rfl, rfl, rfl, fun _ h => h, fun _ => rfl⟩

protected theorem trans (h : Only n s t) (h' : Only n t u) : Only n s u where
  changes m hm := (h'.changes m hm).trans (h.changes m hm)
  owed m hm := (h'.owed m hm).trans (h.owed m hm)
  requests := h'.requests.trans h.requests
  ended := h'.ended.trans h.ended
  games level hlevel := h'.games level (h.games level hlevel)
  balance x := (h'.balance x).trans (h.balance x)

theorem changeAsset (s : Agent) (n : Nat) (assetType : AssetType) (value : Int) :
    Only n s (s.changeAsset (some n) assetType value) where
  changes m hm := by
    rw [changesOf_changeAsset, if_neg fun h => hm (Option.some.inj h.2).symm, List.append_nil]
  owed m hm := by
    unfold Agent.changeAsset
    split <;> rfl
  requests := by
    unfold Agent.changeAsset
    split <;> rfl
  ended := by
    unfold Agent.changeAsset
    split <;> rfl
  games level hlevel := by
    unfold Agent.changeAsset
    split <;> exact hlevel
  balance x := by
    rw [assetDatas_changeAsset, spentOf_changeAsset]
    omega

theorem owe (s : Agent) (n : Nat) (price : Price) : Only n s (s.owe n price) where
  changes _ _ := rfl
  owed m hm := by rw [owedOf_owe, if_neg (Ne.symm hm), List.append_nil]
  requests := rfl
  ended := rfl
  games _ h := h
  balance _ := rfl

theorem setLock (s : Agent) (n : Nat) (lock : Lock) (b : Bool) : Only n s (s.setLock lock b) :=
  ⟨fun _ _ => rfl, fun _ _ => rfl, rfl, rfl, fun _ h => h, fun _ => rfl⟩

theorem setGame (s : Agent) (n : Nat) (level : Int) (data : GameData) :
    Only n s (s.setGame level (some data)) where
  changes _ _ := rfl
  owed _ _ := rfl
  requests := rfl
  ended := rfl
  games l hl := by
    change Function.update s.hammerGameData level (some data) l ≠ none
    by_cases h : l = level
    · rw [h, Function.update_self]
      exact Option.some_ne_none data
    · rw [Function.update_of_ne h]
      exact hl
  balance _ := rfl

end Only

end Agent

/-! ## Requests that wait -/

/-- What a request owns: its lock and its number; `level` is that of a game it knows, and
`paid` the price it has paid. -/
structure Token where
  lock : Option Lock
  request : Nat
  level : Option Int
  paid : Option Price

structure Token.Fits (s : Agent) (token : Token) : Prop where
  level : ∀ level ∈ token.level, s.hammerGameData level ≠ none
  owed : s.owedOf token.request = token.paid.toList
  changes : token.paid = none → s.changesOf token.request = []
  paid : ∀ price ∈ token.paid, price.Paid (s.changesOf token.request)

structure Held (start : AssetType → Int) (s : Agent) (m : Multiset Token) : Prop where
  balance : ∀ x, s.assetDatas x = start x + s.spentOf x
  locks : ∀ lock, s.actionLock lock = true → ∃ token ∈ m, token.lock = some lock
  nodup : (m.map Token.request).Nodup
  fits : ∀ token ∈ m, token.request < s.requests ∧ token.Fits s
  ended : ∀ x ∈ s.ended, x.1 < s.requests ∧ x.1 ∉ m.map Token.request ∧ x.2.Good s x.1
  fresh : ∀ n, s.requests ≤ n → s.changesOf n = [] ∧ s.owedOf n = []

def owning (start : AssetType → Int) : Owning Agent Call Answer (Multiset Token) where
  valid := Answered
  keeps _ := True
  holds := Held start
  may q g := ∃ token, g = {token} ∧ token.lock = some q.lock
  frame _ _ s _ := s.NoDebt

theorem Response.Good.congr {s t : Agent} {n : Nat} {r : Response} (h : r.Good s n)
    (hchanges : t.changesOf n = s.changesOf n) (howed : t.owedOf n = s.owedOf n) : r.Good t n := by
  cases r with
  | error result => exact hchanges.trans h
  | hammer level => exact hchanges.trans h
  | strike result level eggNo useType replaceMoney eggStatus kaijiang =>
      obtain ⟨price, hprice⟩ := h
      exact ⟨price, by rwa [howed, hchanges]⟩
  | eggs level awardList replaceMoney =>
      obtain ⟨price, hprice⟩ := h
      exact ⟨price, by rwa [howed, hchanges]⟩

namespace Held

variable {start : AssetType → Int} {s t : Agent} {f : Multiset Token} {token token' : Token}

theorem move (h : Held start s ({token} + f)) (hst : Agent.Only token.request s t)
    (hrequest : token'.request = token.request)
    (hlock : ∀ lock, t.actionLock lock = true → token'.lock = some lock ∨
      s.actionLock lock = true ∧ token.lock ≠ some lock)
    (hfits : token'.Fits t) : Held start t ({token'} + f) := by
  have hne {x : Token} (hx : x ∈ f) : x.request ≠ token.request := by
    intro heq
    have hnodup := h.nodup
    rw [Multiset.map_add, Multiset.map_singleton, Multiset.singleton_add,
      Multiset.nodup_cons] at hnodup
    exact hnodup.1 (heq ▸ Multiset.mem_map_of_mem Token.request hx)
  have hrequests : ({token'} + f).map Token.request = ({token} + f).map Token.request := by
    simp only [Multiset.map_add, Multiset.map_singleton, hrequest]
  refine ⟨fun x => ?_, fun lock hheld => ?_, by rw [hrequests]; exact h.nodup, fun x hx => ?_,
    fun x hx => ?_, fun n hn => ?_⟩
  · have hbefore := h.balance x
    have hafter := hst.balance x
    omega
  · rcases hlock lock hheld with hmine | ⟨hold, hnot⟩
    · exact ⟨token', by simp, hmine⟩
    · obtain ⟨x, hx, hxlock⟩ := h.locks lock hold
      rcases Multiset.mem_add.mp hx with hx | hx
      · obtain rfl := Multiset.mem_singleton.mp hx
        exact absurd hxlock hnot
      · exact ⟨x, Multiset.mem_add.mpr (.inr hx), hxlock⟩
  · rcases Multiset.mem_add.mp hx with hx | hx
    · obtain rfl := Multiset.mem_singleton.mp hx
      rw [hrequest, hst.requests]
      exact ⟨(h.fits token (by simp)).1, hfits⟩
    · obtain ⟨hlt, hfit⟩ := h.fits x (Multiset.mem_add.mpr (.inr hx))
      have hother := hne hx
      exact ⟨hst.requests ▸ hlt, fun level hl => hst.games level (hfit.level level hl),
        (hst.owed _ hother).trans hfit.owed,
        fun hp => (hst.changes _ hother).trans (hfit.changes hp),
        fun price hp => by rw [hst.changes _ hother]; exact hfit.paid price hp⟩
  · rw [hst.ended] at hx
    obtain ⟨hlt, hout, hgood⟩ := h.ended x hx
    have hother : x.1 ≠ token.request := by
      rintro heq
      exact hout (by rw [heq]; exact Multiset.mem_map_of_mem _ (by simp))
    exact ⟨hst.requests ▸ hlt, hrequests ▸ hout,
      hgood.congr (hst.changes _ hother) (hst.owed _ hother)⟩
  · have hother : n ≠ token.request := by
      rintro rfl
      exact absurd (h.fits token (by simp)).1 (by rw [hst.requests] at hn; omega)
    rw [hst.requests] at hn
    obtain ⟨hc, ho⟩ := h.fresh n hn
    exact ⟨(hst.changes _ hother).trans hc, (hst.owed _ hother).trans ho⟩

theorem arrive (h : Held start s f) :
    Held start { s with requests := s.requests + 1 } ({⟨none, s.requests, none, none⟩} + f) := by
  obtain ⟨hchanges, howed⟩ := h.fresh s.requests (le_refl _)
  have hnew : s.requests ∉ f.map Token.request := by
    intro hmem
    obtain ⟨x, hx, heq⟩ := Multiset.mem_map.mp hmem
    exact absurd (h.fits x hx).1 (by omega)
  refine ⟨h.balance, fun lock hheld => ?_, ?_, fun x hx => ?_, fun x hx => ?_, fun n hn => ?_⟩
  · obtain ⟨x, hx, hxlock⟩ := h.locks lock hheld
    exact ⟨x, Multiset.mem_add.mpr (.inr hx), hxlock⟩
  · rw [Multiset.map_add, Multiset.map_singleton, Multiset.singleton_add, Multiset.nodup_cons]
    exact ⟨hnew, h.nodup⟩
  · rcases Multiset.mem_add.mp hx with hx | hx
    · obtain rfl := Multiset.mem_singleton.mp hx
      exact ⟨Nat.lt_succ_self _, by simp, howed, fun _ => hchanges, by simp⟩
    · obtain ⟨hlt, hfit⟩ := h.fits x hx
      exact ⟨Nat.lt_succ_of_lt hlt, hfit.level, hfit.owed, hfit.changes, hfit.paid⟩
  · obtain ⟨hlt, hout, hgood⟩ := h.ended x hx
    refine ⟨Nat.lt_succ_of_lt hlt, ?_, hgood.congr rfl rfl⟩
    rw [Multiset.map_add, Multiset.map_singleton, Multiset.singleton_add, Multiset.mem_cons]
    rintro (heq | hmem)
    · exact absurd hlt (by rw [heq]; exact lt_irrefl _)
    · exact hout hmem
  · exact h.fresh n (Nat.le_of_succ_le hn)

theorem drop (h : Held start s ({token} + f)) (hlock : token.lock = none) : Held start s f := by
  have hnodup := h.nodup
  rw [Multiset.map_add, Multiset.map_singleton, Multiset.singleton_add,
    Multiset.nodup_cons] at hnodup
  refine ⟨h.balance, fun lock hheld => ?_, hnodup.2,
    fun x hx => h.fits x (Multiset.mem_add.mpr (.inr hx)), fun x hx => ?_, h.fresh⟩
  · obtain ⟨x, hx, hxlock⟩ := h.locks lock hheld
    rcases Multiset.mem_add.mp hx with hx | hx
    · obtain rfl := Multiset.mem_singleton.mp hx
      rw [hlock] at hxlock
      cases hxlock
    · exact ⟨x, hx, hxlock⟩
  · obtain ⟨hlt, hout, hgood⟩ := h.ended x hx
    refine ⟨hlt, fun hmem => hout ?_, hgood⟩
    rw [Multiset.map_add]
    exact Multiset.mem_add.mpr (.inr hmem)

theorem changeAsset (h : Held start s f) (assetType : AssetType) (value : Int) :
    Held start (s.changeAsset none assetType value) f := by
  have hchanges (m : Nat) : (s.changeAsset none assetType value).changesOf m = s.changesOf m := by
    rw [Agent.changesOf_changeAsset, if_neg (by simp), List.append_nil]
  have hrest : (s.changeAsset none assetType value).actionLock = s.actionLock ∧
      (s.changeAsset none assetType value).requests = s.requests ∧
      (s.changeAsset none assetType value).ended = s.ended ∧
      (s.changeAsset none assetType value).hammerGameData = s.hammerGameData ∧
      (s.changeAsset none assetType value).owed = s.owed := by
    unfold Agent.changeAsset
    split <;> exact ⟨rfl, rfl, rfl, rfl, rfl⟩
  obtain ⟨hlock, hrequests, hended, hgames, howedAll⟩ := hrest
  have howed (m : Nat) : (s.changeAsset none assetType value).owedOf m = s.owedOf m := by
    rw [Agent.owedOf, Agent.owedOf, howedAll]
  refine ⟨fun x => ?_, fun lock hheld => h.locks lock (hlock ▸ hheld), h.nodup, fun x hx => ?_,
    fun x hx => ?_, fun n hn => ?_⟩
  · have hbefore := h.balance x
    rw [Agent.assetDatas_changeAsset, Agent.spentOf_changeAsset]
    omega
  · obtain ⟨hlt, hfit⟩ := h.fits x hx
    exact ⟨hrequests.symm ▸ hlt, fun level hl => hgames.symm ▸ hfit.level level hl,
      (howed _).trans hfit.owed, fun hp => (hchanges _).trans (hfit.changes hp),
      fun price hp => by rw [hchanges]; exact hfit.paid price hp⟩
  · rw [hended] at hx
    obtain ⟨hlt, hout, hgood⟩ := h.ended x hx
    exact ⟨hrequests.symm ▸ hlt, hout, hgood.congr (hchanges _) (howed _)⟩
  · rw [hrequests] at hn
    rw [hchanges, howed]
    exact h.fresh n hn

theorem finish (h : Held start s ({token} + f)) (hlock : token.lock = none) {r : Response}
    (hgood : r.Good s token.request) : Held start (s.finish token.request r) f := by
  have hnodup := h.nodup
  rw [Multiset.map_add, Multiset.map_singleton, Multiset.singleton_add,
    Multiset.nodup_cons] at hnodup
  have hrest := h.drop hlock
  refine ⟨hrest.balance, hrest.locks, hrest.nodup, fun x hx => ?_, fun x hx => ?_, hrest.fresh⟩
  · obtain ⟨hlt, hfit⟩ := hrest.fits x hx
    exact ⟨hlt, hfit.level, hfit.owed, hfit.changes, hfit.paid⟩
  · rcases List.mem_append.mp hx with hx | hx
    · obtain ⟨hlt, hout, hgood⟩ := hrest.ended x hx
      exact ⟨hlt, hout, hgood.congr rfl rfl⟩
    · obtain rfl := List.mem_singleton.mp hx
      exact ⟨(h.fits token (by simp)).1, hnodup.1, hgood.congr rfl rfl⟩

end Held

/-! ## Paying -/

namespace Agent

variable {s : Agent} {n : Nat} {level baseMoney : Int}

@[simp] theorem actionLock_changeAsset (request : Option Nat) (assetType : AssetType)
    (value : Int) : (s.changeAsset request assetType value).actionLock = s.actionLock := by
  unfold changeAsset
  split <;> rfl

@[simp] theorem owedOf_changeAsset (request : Option Nat) (assetType : AssetType)
    (value : Int) (m : Nat) : (s.changeAsset request assetType value).owedOf m = s.owedOf m := by
  unfold changeAsset
  split <;> rfl

/-- The request `n` alone pays; it is the price where `c` holds. -/
structure Pays (c : Prop) (n : Nat) (price : Price) (s t : Agent) : Prop where
  only : Only n s t
  lock : t.actionLock = s.actionLock
  owed : t.owedOf n = s.owedOf n
  paid : c → s.changesOf n = [] → price.Paid (t.changesOf n)

theorem zjdDeductMoney_cases (n : Nat) (level baseMoney : Int) (s : Agent) :
    (∃ code, zjdDeductMoney n level 1 baseMoney s = (.error code, s.setLock .kaijiang false)) ∨
      ∃ useType t, zjdDeductMoney n level 1 baseMoney s = (.ok useType, t) ∧
        Pays (0 ≤ s.assetDatas (hammerOf level)) n (.strike level baseMoney) s t := by
  unfold zjdDeductMoney
  by_cases hhas : 1 ≤ s.assetDatas (hammerOf level)
  · right
    simp only [if_pos hhas, sub_self, mul_zero, lt_self_iff_false, false_and, if_false,
      zero_lt_one, if_true]
    refine ⟨_, _, rfl, Only.changeAsset s n _ _, by simp, by simp, fun _ hnone => ?_⟩
    rw [changesOf_changeAsset, hnone]
    exact .inl (by simp)
  · have hpos : ¬0 < s.assetDatas (hammerOf level) := by omega
    simp only [if_neg hhas, if_neg hpos]
    split
    · exact .inl ⟨_, rfl⟩
    · right
      have hbase (h : 0 ≤ s.assetDatas (hammerOf level)) :
          baseMoney * (1 - s.assetDatas (hammerOf level)) = baseMoney := by
        rw [show s.assetDatas (hammerOf level) = 0 by omega, sub_zero, mul_one]
      by_cases hneed : 0 < baseMoney * (1 - s.assetDatas (hammerOf level))
      · simp only [if_pos hneed]
        refine ⟨_, _, rfl, Only.changeAsset s n _ _, by simp, by simp, fun hdebt hnone => ?_⟩
        rw [changesOf_changeAsset, hnone, if_pos ⟨by omega, rfl⟩, List.nil_append]
        rw [hbase hdebt] at hneed ⊢
        exact .inr (if_pos hneed).symm
      · simp only [if_neg hneed]
        refine ⟨_, _, rfl, Only.refl n s, rfl, rfl, fun hdebt hnone => .inr ?_⟩
        rw [hbase hdebt] at hneed
        rw [hnone, if_neg hneed]

theorem payEggs_cases (data : GameData) (hmoney : 0 ≤ data.replaceMoney) :
    (∃ code, payEggs n data s = (.error code, s.setLock .replaceEggs false)) ∨
      ∃ isSpendMoney money t, payEggs n data s = (.ok isSpendMoney, t.owe n (.eggs money)) ∧
        (isSpendMoney = false → money = 0) ∧ Pays True n (.eggs money) s t := by
  unfold payEggs
  cases data.eggsStatus with
  | none =>
      exact .inr ⟨_, _, _, rfl, fun _ => rfl, Only.refl n s, rfl, rfl,
        fun _ hnone => by rw [hnone]; rfl⟩
  | some eggs =>
      dsimp only
      split
      · exact .inl ⟨_, rfl⟩
      · refine .inr ⟨_, _, _, rfl, fun hfree => ?_, Only.changeAsset s n _ _, by simp, by simp,
          fun _ hnone => ?_⟩
        · have hnot := of_decide_eq_false hfree
          omega
        · rw [changesOf_changeAsset, hnone]
          by_cases hzero : data.replaceMoney = 0
          · simp [Price.Paid, hzero]
          · simp [Price.Paid, hzero]

theorem dikouHammers_spec (is : List Nat) (left : Int) (hleft : 0 ≤ left)
    (his : ∀ i ∈ is, unit (hammerOf i) = hammerPrice i ∧ 0 < hammerPrice i) :
    worth ((s.dikouHammers is left).1.map fun x => (hammerOf x.1, -x.2)) +
        (s.dikouHammers is left).2 = left ∧
      0 ≤ (s.dikouHammers is left).2 ∧ ∀ x ∈ (s.dikouHammers is left).1, 0 < x.2 := by
  induction is generalizing left with
  | nil => exact ⟨by simp [dikouHammers, worth], hleft, by simp [dikouHammers]⟩
  | cons i is ih =>
      have hrest (j : Nat) (hj : j ∈ is) := his j (List.mem_cons_of_mem i hj)
      obtain ⟨hunit, hprice⟩ := his i List.mem_cons_self
      unfold dikouHammers
      dsimp only
      split
      · rename_i hcount
        generalize hc : min (left / hammerPrice i) (s.assetDatas (hammerOf i)) = count at hcount ⊢
        have hle : count * hammerPrice i ≤ left := by
          have hdiv : count ≤ left / hammerPrice i := by
            rw [← hc]
            exact min_le_left ..
          exact (Int.mul_le_mul_of_nonneg_right hdiv hprice.le).trans
            (Int.ediv_mul_le left hprice.ne')
        obtain ⟨hsum, hnonneg, hpos⟩ := ih (left - count * hammerPrice i) (by omega) hrest
        refine ⟨?_, hnonneg, fun x hx => ?_⟩
        · simp only [worth, List.map_cons, List.sum_cons, hunit, neg_neg] at hsum ⊢
          omega
        · rcases List.mem_cons.mp hx with rfl | hx
          · exact hcount
          · exact hpos x hx
      · exact ih left hleft hrest

theorem foldl_changeAsset (hammers : List (Nat × Int)) (hpos : ∀ x ∈ hammers, 0 < x.2)
    (s : Agent) :
    let t := hammers.foldl (fun s (x : Nat × Int) =>
      s.changeAsset (some n) (hammerOf x.1) (-x.2)) s
    Only n s t ∧ t.actionLock = s.actionLock ∧ t.owedOf n = s.owedOf n ∧
      t.changesOf n = s.changesOf n ++ hammers.map fun x => (hammerOf x.1, -x.2) := by
  induction hammers generalizing s with
  | nil => exact ⟨Only.refl n s, rfl, rfl, by simp⟩
  | cons x hammers ih =>
      have hx := hpos x List.mem_cons_self
      obtain ⟨honly, hlock, howed, hchanges⟩ :=
        ih (fun y hy => hpos y (List.mem_cons_of_mem x hy))
          (s.changeAsset (some n) (hammerOf x.1) (-x.2))
      rw [List.foldl_cons]
      refine ⟨(Only.changeAsset s n _ _).trans honly, hlock.trans (by simp),
        howed.trans (by simp), ?_⟩
      rw [hchanges, changesOf_changeAsset, if_pos ⟨by omega, rfl⟩, List.append_assoc]
      rfl

theorem zjdCaishenDeductMoney_cases (level : Nat) :
    (∃ code, zjdCaishenDeductMoney n level s = (.error code, s.setLock .kaijiang false)) ∨
      ∃ useType t, zjdCaishenDeductMoney n level s = (.ok useType, t) ∧
        Pays True n (.caishen level) s t := by
  have hall : 0 ≤ caishenMoney level * 19 := by
    have hmoney : 0 ≤ caishenMoney level := by
      unfold caishenMoney
      rw [List.getD_eq_getElem?_getD]
      cases hget : ([100, 1000, 10000, 20000, 40000, 80000] : List Int)[level - 1]? with
      | none => exact le_refl 0
      | some money =>
          have hmem := List.mem_of_getElem? hget
          have hpos : ∀ m ∈ ([100, 1000, 10000, 20000, 40000, 80000] : List Int), 0 ≤ m := by decide
          exact hpos money hmem
    omega
  obtain ⟨hsum, hnonneg, hpos⟩ := s.dikouHammers_spec [4, 3, 2, 1] _ hall (by decide)
  unfold zjdCaishenDeductMoney
  rcases hr : s.dikouHammers [4, 3, 2, 1] (caishenMoney level * 19) with ⟨hammers, needMoney⟩
  rw [hr] at hsum hnonneg hpos
  simp only [hr]
  obtain ⟨honly, hlock, howed, hchanges⟩ := foldl_changeAsset (n := n) hammers hpos s
  dsimp only at hsum hnonneg hpos hchanges ⊢
  split
  · exact .inl ⟨_, rfl⟩
  right
  by_cases hneed : 0 < needMoney
  · simp only [if_pos hneed]
    refine ⟨_, _, rfl, honly.trans (Only.changeAsset _ n _ _), by simp [hlock], by simp [howed],
      fun _ hnone => ?_⟩
    rw [changesOf_changeAsset, hchanges, hnone, if_pos ⟨by omega, rfl⟩, List.nil_append]
    refine ⟨?_, fun c hc => ?_⟩
    · have hunit : unit "jing_bi" = 1 := rfl
      simp only [worth, List.map_append, List.sum_append, List.map_cons, List.map_nil,
        List.sum_cons, List.sum_nil, hunit] at hsum ⊢
      omega
    · rcases List.mem_append.mp hc with hc | hc
      · obtain ⟨x, hx, rfl⟩ := List.mem_map.mp hc
        have hx := hpos x hx
        dsimp only
        omega
      · obtain rfl := List.mem_singleton.mp hc
        dsimp only
        omega
  · simp only [if_neg hneed]
    refine ⟨_, _, rfl, honly, hlock, howed, fun _ hnone => ?_⟩
    rw [hchanges, hnone, List.nil_append]
    refine ⟨by omega, fun c hc => ?_⟩
    obtain ⟨x, hx, rfl⟩ := List.mem_map.mp hc
    have hx := hpos x hx
    dsimp only
    omega

end Agent

section Owns

variable {start : AssetType → Int} {s t : Agent} {n : Nat} {fr : Multiset Token → Prop}
  {token token' : Token}

theorem turns_move (hst : Agent.Only token.request s t) (hrequest : token'.request = token.request)
    (hlock : ∀ lock, t.actionLock lock = true → token'.lock = some lock ∨
      s.actionLock lock = true ∧ token.lock ≠ some lock)
    (hfits : token.Fits s → token'.Fits t) :
    (owning start).Turns fr s {token} t {token'} := by
  refine ⟨trivial, fun f _ hs => ?_⟩
  exact hs.move hst hrequest hlock (hfits (hs.fits token (by simp)).2)

theorem turns_refl : (owning start).Turns fr s {token} s {token} :=
  ⟨trivial, fun _ _ h => h⟩

/-- The end of a request: it has no lock, and has paid for what it is answered. -/
def Ends (n : Nat) (r : Response) (g : Multiset Token) : Prop :=
  ∃ level paid, g = {⟨none, n, level, paid⟩} ∧
    match r with
    | .error _ => paid = none ∨ paid = some (.eggs 0)
    | .hammer _ => paid = none
    | r => ∃ price, paid = some price ∧ r.Owes price

theorem owns_request (op : Nat → Op Response)
    (hop : (op s.requests { s with requests := s.requests + 1 }).Owns (owning start)
      (fun r _ g => Ends s.requests r g) (fun _ => True)
      { s with requests := s.requests + 1 } {⟨none, s.requests, none, none⟩}) :
    (request op s).Owns (owning start) (fun _ _ g => g = 0) (fun _ => True) s 0 := by
  have harrive : (owning start).Turns (fun _ => True) s 0 { s with requests := s.requests + 1 }
      {⟨none, s.requests, none, none⟩} :=
    ⟨trivial, fun f _ hs => by rw [zero_add] at hs; exact hs.arrive⟩
  refine Prog.Owns.of_turns harrive (hop.bind fun fr r t g _ hends => ?_)
  obtain ⟨level, paid, rfl, hpaid⟩ := hends
  refine ⟨0, ⟨trivial, fun f _ ht => ?_⟩, rfl⟩
  rw [zero_add]
  have hfits := (ht.fits ⟨none, s.requests, level, paid⟩ (by simp)).2
  refine ht.finish rfl ?_
  cases r with
  | error result =>
      rcases hpaid with rfl | rfl
      · exact hfits.changes rfl
      · exact (hfits.paid _ rfl).trans (if_pos rfl)
  | hammer level => exact hfits.changes hpaid
  | strike result level eggNo useType replaceMoney eggStatus kaijiang =>
      obtain ⟨price, rfl, howes⟩ := hpaid
      exact ⟨price, hfits.owed, howes, hfits.paid price rfl⟩
  | eggs level awardList replaceMoney =>
      obtain ⟨price, rfl, howes⟩ := hpaid
      exact ⟨price, hfits.owed, howes, hfits.paid price rfl⟩

theorem owns_refuse {level : Option Int} (code : Int) :
    (Prog.done s (.error code) : Prog Agent Call Answer Response).Owns (owning start)
      (fun r _ g => Ends n r g) fr s {⟨none, n, level, none⟩} :=
  ⟨_, turns_refl, level, none, rfl, .inl rfl⟩

theorem turns_take (lock : Lock) {level : Option Int} (level' : Option Int)
    (hlevel : ∀ l ∈ level', s.hammerGameData l ≠ none) :
    (owning start).Turns fr s {⟨none, n, level, none⟩} (s.setLock lock true)
      {⟨some lock, n, level', none⟩} := by
  refine turns_move (Agent.Only.setLock s n lock true) rfl (fun l hl => ?_)
    fun h => ⟨hlevel, h.owed, h.changes, h.paid⟩
  by_cases heq : l = lock
  · exact .inl (by rw [heq])
  · right
    refine ⟨?_, nofun⟩
    change Function.update s.actionLock lock true l = true at hl
    rwa [Function.update_of_ne heq] at hl

theorem turns_release {lock : Lock} {level : Option Int} {paid : Option Price}
    (hst : Agent.Only n s t) (hlock : t.actionLock = s.actionLock)
    (hfits : (⟨some lock, n, level, paid⟩ : Token).Fits s →
      (⟨none, n, level, paid⟩ : Token).Fits t) :
    (owning start).Turns fr s {⟨some lock, n, level, paid⟩} (t.setLock lock false)
      {⟨none, n, level, paid⟩} := by
  refine turns_move (hst.trans (Agent.Only.setLock t n lock false)) rfl (fun l hl => ?_)
    fun h => ⟨(hfits h).level, (hfits h).owed, (hfits h).changes, (hfits h).paid⟩
  change Function.update t.actionLock lock false l = true at hl
  by_cases heq : l = lock
  · rw [heq, Function.update_self] at hl
    cases hl
  · rw [Function.update_of_ne heq, hlock] at hl
    exact .inr ⟨hl, fun h => heq (Option.some.inj h).symm⟩

theorem turns_pay {c : Prop} {lock : Lock} {level : Option Int} {price : Price}
    (level' : Option Int) (hpays : Agent.Pays c n price s t) (hc : ∀ f, fr f → c)
    (hlevel : ∀ l ∈ level', l ∈ level) :
    (owning start).Turns fr s {⟨some lock, n, level, none⟩} (t.owe n price)
      {⟨some lock, n, level', some price⟩} := by
  refine ⟨trivial, fun f hf hs => ?_⟩
  have h := (hs.fits ⟨some lock, n, level, none⟩ (by simp)).2
  refine hs.move (hpays.only.trans (Agent.Only.owe t n price)) rfl (fun l hl => ?_)
    ⟨fun l hl => ?_, ?_, nofun, fun p hp => ?_⟩
  · change t.actionLock l = true at hl
    rw [hpays.lock] at hl
    by_cases heq : l = lock
    · exact .inl (by rw [heq])
    · exact .inr ⟨hl, fun h => heq (Option.some.inj h).symm⟩
  · exact hpays.only.games l (h.level l (hlevel l hl))
  · have howed : s.owedOf n = [] := h.owed
    rw [Agent.owedOf_owe, hpays.owed, howed, if_pos rfl]
    rfl
  · obtain rfl := Option.some.inj hp
    exact hpays.paid (hc f hf) (h.changes rfl)

theorem owns_zjdCaishenModelKaijiang (level eggNo : Int) :
    (Agent.zjdCaishenModelKaijiang n level eggNo s).Owns (owning start)
      (fun r _ g => Ends n r g) fr s {⟨none, n, none, none⟩} := by
  unfold Agent.zjdCaishenModelKaijiang
  split
  · exact owns_refuse 1008
  refine Prog.Owns.of_turns (turns_take .kaijiang none (by simp)) ?_
  rcases Agent.zjdCaishenDeductMoney_cases (n := n) (s := s.setLock .kaijiang true)
    (Agent.realLevel eggNo) with ⟨code, hcode⟩ | ⟨useType, t, hok, hpays⟩
  · simp only [hcode]
    exact ⟨_, turns_release (Agent.Only.refl n _) rfl
      fun h => ⟨h.level, h.owed, h.changes, h.paid⟩, none, none, rfl, .inl rfl⟩
  · simp only [hok]
    refine ⟨_, turns_pay none hpays (fun _ _ => trivial) (by simp), ⟨_, rfl, rfl⟩,
      fun a u ha _ => ?_⟩
    obtain ⟨kaijiang, rfl⟩ := ha
    exact ⟨_, turns_release (Agent.Only.refl n _) rfl
      fun h => ⟨h.level, h.owed, h.changes, h.paid⟩, none, _, rfl, _, rfl, rfl⟩

theorem owns_strike {level : Int} (eggNo : Int) (giftShow : Bool)
    (hc : ∀ f, fr f → 0 ≤ s.assetDatas (hammerOf level)) :
    (Agent.strike n level eggNo giftShow s).Owns (owning start) (fun r _ g => Ends n r g) fr s
      {⟨some .kaijiang, n, some level, none⟩} := by
  unfold Agent.strike
  cases hgame : s.hammerGameData level with
  | none =>
      refine ⟨trivial, fun f _ hs => ?_⟩
      have hfits := hs.fits ⟨some .kaijiang, n, some level, none⟩ (by simp)
      exact absurd hgame (hfits.2.level level rfl)
  | some data =>
      dsimp only
      rcases Agent.zjdDeductMoney_cases n level data.baseMoney s with
        ⟨code, hcode⟩ | ⟨useType, t, hok, hpays⟩
      · simp only [hcode]
        exact ⟨_, turns_release (Agent.Only.refl n _) rfl
          fun h => ⟨h.level, h.owed, h.changes, h.paid⟩, _, none, rfl, .inl rfl⟩
      · simp only [hok]
        refine ⟨_, turns_pay none hpays hc (by simp), ⟨_, rfl, rfl⟩,
          fun a u ha _ => ?_⟩
        obtain ⟨data', kaijiang, rfl, heggs⟩ := ha
        dsimp only
        cases hstatus : data'.eggsStatus with
        | none => exact absurd hstatus heggs
        | some eggs =>
            exact ⟨_, turns_release (Agent.Only.setGame u n level data') rfl
              fun h => ⟨by simp, h.owed, h.changes, h.paid⟩, none, _, rfl, _, rfl, rfl⟩

theorem owns_zjdKaijiang (level eggNo : Option Int) (hdebt : s.NoDebt) :
    (Agent.zjdKaijiang n level eggNo s).Owns (owning start) (fun r _ g => Ends n r g) fr s
      {⟨none, n, none, none⟩} := by
  unfold Agent.zjdKaijiang
  cases level with
  | none => exact owns_refuse 1001
  | some level =>
      cases eggNo with
      | none => exact owns_refuse 1001
      | some eggNo =>
          dsimp only
          split
          · exact owns_refuse 1001
          split
          · exact owns_zjdCaishenModelKaijiang level eggNo
          cases hclosed : s.eggClosed level eggNo with
          | none =>
              exact ⟨trivial, fun f _ hs => by rw [zero_add]; exact hs.drop rfl⟩
          | some closed =>
              cases closed with
              | false => exact owns_refuse 1003
              | true =>
                  dsimp only
                  split
                  · exact owns_refuse 1008
                  have hgame : s.hammerGameData level ≠ none := by
                    intro hnone
                    rw [Agent.eggClosed, hnone] at hclosed
                    cases hclosed
                  have htake : (owning start).Turns fr s {⟨none, n, none, none⟩}
                      (s.setLock .kaijiang true) {⟨some .kaijiang, n, some level, none⟩} :=
                    turns_take .kaijiang (some level) fun l hl => Option.some.inj hl ▸ hgame
                  cases s.activityCondition level with
                  | none =>
                      exact Prog.Owns.of_turns htake
                        (owns_strike eggNo false fun _ _ => hdebt level)
                  | some giftBagId =>
                      refine ⟨_, htake, ⟨_, rfl, rfl⟩, fun a u ha _ => ?_⟩
                      obtain ⟨k, rfl⟩ := ha
                      exact owns_strike eggNo _ fun _ hu => hu level

theorem owns_zjdReplaceEggs (level : Option Int) (hknown : Known s (.zjdReplaceEggs level)) :
    (Agent.zjdReplaceEggs n level s).Owns (owning start) (fun r _ g => Ends n r g) fr s
      {⟨none, n, none, none⟩} := by
  unfold Agent.zjdReplaceEggs
  cases level with
  | none => exact owns_refuse 1001
  | some level =>
      dsimp only
      split
      · exact owns_refuse 1001
      rename_i hlevel
      split
      · exact owns_refuse 1008
      obtain ⟨data, hgame, hmoney⟩ := hknown (not_not.mp hlevel)
      rw [Option.mem_def] at hgame
      simp only [hgame]
      refine Prog.Owns.of_turns
        (turns_take .replaceEggs none (by simp)) ?_
      rcases Agent.payEggs_cases (n := n) (s := s.setLock .replaceEggs true) data hmoney with
        ⟨code, hcode⟩ | ⟨isSpendMoney, money, t, hok, hfree, hpays⟩
      · simp only [hcode]
        exact ⟨_, turns_release (Agent.Only.refl n _) rfl
          fun h => ⟨h.level, h.owed, h.changes, h.paid⟩, none, none, rfl, .inl rfl⟩
      · simp only [hok]
        refine ⟨_, turns_pay none hpays (fun _ _ => trivial) (by simp),
          ⟨_, rfl, rfl⟩, fun a u ha _ => ?_⟩
        rcases ha with ⟨data', awardList, rfl⟩ | ⟨hspend, code, rfl⟩
        · exact ⟨_, turns_release (Agent.Only.setGame u n level data') rfl
            fun h => ⟨by simp, h.owed, h.changes, h.paid⟩, none, _, rfl, _, rfl, trivial⟩
        · exact ⟨_, turns_release (Agent.Only.refl n u) rfl
            fun h => ⟨h.level, h.owed, h.changes, h.paid⟩, none, _, rfl,
            .inr (by rw [hfree hspend])⟩

theorem owns_zjdReplaceHammer (level : Option Int) :
    (Agent.zjdReplaceHammer level s).Owns (owning start) (fun r _ g => Ends n r g) fr s
      {⟨none, n, none, none⟩} := by
  unfold Agent.zjdReplaceHammer
  cases level with
  | none => exact owns_refuse 1001
  | some level =>
      dsimp only
      split
      · exact owns_refuse 1001
      split
      · exact owns_refuse 1008
      refine ⟨_, turns_take .replaceHammer none (by simp), ⟨_, rfl, rfl⟩,
        fun a u ha _ => ?_⟩
      have hgaming (id : Option Int) : Agent.Only n u { u with gamingHammerId := id } :=
        ⟨fun _ _ => rfl, fun _ _ => rfl, rfl, rfl, fun _ h => h, fun _ => rfl⟩
      rcases ha with rfl | ⟨code, rfl⟩ | ⟨id, rfl⟩
      · exact ⟨_, turns_release (hgaming none) rfl
          fun h => ⟨h.level, h.owed, h.changes, h.paid⟩, none, none, rfl, rfl⟩
      · exact ⟨_, turns_release (Agent.Only.refl n u) rfl
          fun h => ⟨h.level, h.owed, h.changes, h.paid⟩, none, none, rfl, .inl rfl⟩
      · exact ⟨_, turns_release (hgaming (some id)) rfl
          fun h => ⟨h.level, h.owed, h.changes, h.paid⟩, none, none, rfl, rfl⟩

theorem owns_handle {e : Event} (hdebt : s.NoDebt) (hknown : Known s e) :
    (handle e s).Owns (owning start) (fun _ _ g => g = 0) (fun _ => True) s 0 := by
  cases e with
  | zjdKaijiang level eggNo =>
      exact owns_request (fun n => Agent.zjdKaijiang n level eggNo)
        (owns_zjdKaijiang level eggNo hdebt)
  | zjdReplaceEggs level =>
      refine owns_request (fun n => Agent.zjdReplaceEggs n level) (owns_zjdReplaceEggs level ?_)
      cases level with
      | none => trivial
      | some level => exact hknown
  | zjdReplaceHammer level =>
      exact owns_request (fun _ => Agent.zjdReplaceHammer level) (owns_zjdReplaceHammer level)
  | multiAssetOnChangeMsg assetType value =>
      refine ⟨0, ⟨trivial, fun f _ hs => ?_⟩, rfl⟩
      rw [zero_add] at hs ⊢
      exact hs.changeAsset assetType value

end Owns

/-! ## Runs -/

def Fair : World Agent Call Answer Unit → Input Event Answer → Prop :=
  World.Admits Answered (fun s e => s.NoDebt ∧ Known s e) Agent.NoDebt

theorem Agent.Started.held {s : Agent} (h : s.Started) : Held s.assetDatas s 0 where
  balance x := by simp [Agent.spentOf, h.spent]
  locks lock hheld := by
    rw [h.unlocked lock] at hheld
    cases hheld
  nodup := Multiset.nodup_zero
  fits _ hx := absurd hx (Multiset.notMem_zero _)
  ended x hx := by
    rw [h.ended] at hx
    cases hx
  fresh n _ := ⟨by simp [Agent.changesOf, h.spent], by simp [Agent.owedOf, h.owed]⟩

theorem Charged.of_owned {start : AssetType → Int} {w : World Agent Call Answer Unit}
    (h : w.Owned (owning start)) : Charged start w := by
  obtain ⟨-, gs, hheld, hwait⟩ := h
  refine ⟨hheld.balance, fun x hx => (hheld.ended x hx).2.2, fun lock hlock => ?_⟩
  obtain ⟨token, htoken, hmine⟩ := hheld.locks lock hlock
  have hjoin : token ∈ Multiset.join (gs : Multiset (Multiset Token)) := by
    rwa [Multiset.join, Multiset.sum_coe]
  obtain ⟨g, hg, hmem⟩ := Multiset.mem_join.mp hjoin
  obtain ⟨i, hi, rfl⟩ := List.getElem_of_mem hg
  have hlt : i < w.waiting.length := hwait.length_eq ▸ hi
  obtain ⟨token', heq, hq⟩ := ((List.forall₂_iff_get.mp hwait).2 i hlt hi).1
  refine ⟨w.waiting[i], List.getElem_mem hlt, ?_⟩
  rw [List.get_eq_getElem] at heq
  rw [heq] at hmem
  obtain rfl := Multiset.mem_singleton.mp hmem
  exact Option.some.inj (hq.symm.trans hmine)

/-- While the room carries out every strike that is paid, each request is charged as it is
answered. -/
theorem strikes_charged {s : Agent} {w : World Agent Call Answer Unit} (hs : s.Started)
    (h : Reach (World.step handle) Fair ⟨s, []⟩ w) : Charged s.assetDatas w := by
  have hstart : World.Owned (owning s.assetDatas) (⟨s, []⟩ : World Agent Call Answer Unit) :=
    ⟨trivial, [], hs.held, .nil⟩
  refine .of_owned (Reach.invariant hstart (fun v i hv hi => ?_) h)
  have hcmd (t : Agent) (e : Event) (he : t.NoDebt ∧ Known t e) :
      (handle e t).Owns (owning s.assetDatas) (fun _ _ g => g = 0) (fun _ => True) t 0 :=
    owns_handle he.1 he.2
  refine World.Owned.step (fun t e _ => hcmd t e) hv (i := i) ?_ fun j a hj x _ _ _ _ _ _ => ?_
  · cases i with
    | command e => exact hi
    | answer j a => exact ⟨trivial, hi.2⟩
  · subst hj
    exact hi.1

def threeEggs : GameData where
  baseMoney := 100
  replaceMoney := 10
  eggsStatus := some [0, 0, 0]

def smasher : Agent where
  hammerGameData level := if level = 1 then some threeEggs else none
  canOpenEggNum := 3
  assetDatas assetType := if assetType = hammerOf 1 then 1 else 0

theorem started_smasher : smasher.Started := ⟨fun _ => rfl, rfl, rfl, rfl⟩

def smash : Input Event Answer := .command (.zjdKaijiang (some 1) (some 2))

def smashed : Input Event Answer :=
  .answer 0 (.struck { threeEggs with eggsStatus := some [0, 1, 0] } [])

theorem noDebt_smasher : smasher.NoDebt := by
  intro level
  change (0 : Int) ≤ if _ then 1 else 0
  split <;> decide

theorem noDebt_smash : (World.step handle ⟨smasher, []⟩ smash).state.NoDebt := by
  intro level
  change 0 ≤ Function.update smasher.assetDatas (hammerOf 1) (1 + -1) (hammerOf level)
  by_cases h : hammerOf level = hammerOf 1
  · rw [h, Function.update_self]
    decide
  · rw [Function.update_of_ne h]
    exact noDebt_smasher level

theorem strikes_charged_smashed :
    (run (World.step handle) ⟨smasher, []⟩ [smash, smashed]).state.ended.map Prod.fst = [0] ∧
      Charged smasher.assetDatas (run (World.step handle) ⟨smasher, []⟩ [smash, smashed]) := by
  refine ⟨by decide +kernel, strikes_charged started_smasher (reach_run ⟨?_, ⟨?_, ?_⟩, trivial⟩)⟩
  · exact ⟨noDebt_smasher, trivial⟩
  · exact noDebt_smash
  · intro x hx
    obtain rfl := Option.some.inj hx
    exact ⟨_, _, rfl, nofun⟩

def Answers (w : World Agent Call Answer Unit) : Input Event Answer → Prop
  | .command _ => True
  | .answer i a => ∀ x ∈ w.waiting[i]?, Answered x.1 a ∨ (∃ code, a = .number code) ∨ a = .callFail

def replacedHammer : List (Input Event Answer) :=
  [.command (.zjdReplaceHammer (some 2)), smash, .answer 0 (.hammer 2), .answer 0 (.number 1003)]

theorem strike_lost :
    ¬∀ s : Agent, s.Started → ∀ w, Reach (World.step handle) Answers ⟨s, []⟩ w →
      Charged s.assetDatas w := by
  intro h
  have hrun := h smasher started_smasher
    (run (World.step handle) ⟨smasher, []⟩ replacedHammer) (reach_run ?_)
  · have hgood := hrun.ended (1, .error 1003) (by decide +kernel)
    revert hgood
    change _ = [] → False
    decide +kernel
  · refine ⟨trivial, trivial, fun x hx => ?_, fun x hx => ?_, trivial⟩
    · obtain rfl := Option.some.inj hx
      exact .inl (.inr (.inr ⟨2, rfl⟩))
    · exact .inr (.inl ⟨1003, rfl⟩)

end JyQipai.Zajindan
