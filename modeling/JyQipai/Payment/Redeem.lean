import JyQipai.Payment.Service
import JyQipai.Lib.Rely

/-!
# Transactions are redeemed once

An order is completed where its transaction is looked up, and delivered in the same stretch.
As long as no order is made for a transaction that has one, the order of a transaction stays
the same while `verify_appstore_pay` waits.
-/

namespace JyQipai.Payment

open Lib Common AssetManage

namespace Tables

def createdFor (s : Tables) (id : OrderId) : Option PlayerId :=
  (s.orderRows.find? fun r => r.orderId = id).map OrderRow.playerId

/-- No transaction is delivered twice, and each one is delivered to the player for whom the
order with the details was created. -/
structure RedeemedOnce (s : Tables) : Prop where
  once : (s.redeemed.map Redeemed.transactionId).Nodup
  owner : ∀ r ∈ s.redeemed, s.createdFor r.orderId = some r.playerId

structure Opened (s : Tables) : Prop where
  redeemed : s.redeemed = []
  orders : ∀ x o, s.appstorePaymentInfo x = some o → s.createdFor o.orderId = some o.playerId
  old : ∀ r ∈ s.orderRows, s.Old r.orderId

structure Redeems (s : Tables) : Prop extends RedeemedOnce s where
  complete : ∀ r ∈ s.redeemed, ∃ o, s.appstorePaymentInfo r.transactionId = some o ∧
    o.orderStatus = .complete
  orders : ∀ x o, s.appstorePaymentInfo x = some o → s.createdFor o.orderId = some o.playerId
  old : ∀ r ∈ s.orderRows, s.Old r.orderId

def OrdersStay (s t : Tables) : Prop :=
  ∀ x o, s.appstorePaymentInfo x = some o → ∃ o', t.appstorePaymentInfo x = some o' ∧
    o'.orderId = o.orderId

structure Stays (s t : Tables) : Prop where
  info : t.appstorePaymentInfo = s.appstorePaymentInfo
  rows : t.orderRows = s.orderRows
  redeemed : t.redeemed = s.redeemed
  date : t.lastPayOrderDate = s.lastPayOrderDate
  index : t.lastPayOrderTodayIndex = s.lastPayOrderTodayIndex
  now : t.now = s.now

end Tables

def Fresh : Call → Reply → Tables → Prop
  | .request (.createAppstoreOrder v), _, s => s.appstorePaymentInfo v.transactionId = none
  | _, _, _ => True

instance decidableFresh (q : Call) (a : Reply) (s : Tables) : Decidable (Fresh q a s) := by
  cases q with
  | request m =>
      cases m with
      | createAppstoreOrder v =>
          exact decidable_of_iff ((s.appstorePaymentInfo v.transactionId).isNone = true)
            Option.isNone_iff_eq_none
      | _ => exact .isTrue trivial
  | _ => exact .isTrue trivial

/-- The way a call takes: `true` to `data_service`, `false` back. -/
def Call.way : Call → Option Bool
  | .request (.ask _) | .reply _ => some false
  | .request _ | .replyAsk _ _ => some true
  | _ => none

def Accepted : Call → Reply → Prop
  | .requestPostJson _, a => a = .receipt .accepted
  | _, _ => True

instance decidableAccepted (q : Call) (a : Reply) : Decidable (Accepted q a) := by
  cases q with
  | requestPostJson v => exact inferInstanceAs (Decidable (a = .receipt .accepted))
  | _ => exact .isTrue trivial

inductive VerifyEvent where
  | verifyAppstorePay (v : Verify) (desc : String)
  | updateShopingConfig (goods : Nat → Option Goods) (appstore : String → Option Goods)
    (config : AssetType → Option (List ConvertGoods))
  | clock (seconds : Nat)

def handleVerify : VerifyEvent → Service Unit
  | .verifyAppstorePay v desc, s => (s.verifyAppstorePay v desc).bind fun _ s => .done s ()
  | .updateShopingConfig goods appstore config, s =>
      .done { s with
        shopingGoodsConfig := goods
        appstoreShopingGoodsConfig := appstore
        shopingConfig := config } ()
  | .clock seconds, s => .done { s with now := s.now + seconds } ()

/-! ## What is kept -/

namespace Tables

def Placed (transactionId : String) (id : OrderId) (s : Tables) : Prop :=
  ∃ o, s.appstorePaymentInfo transactionId = some o ∧ o.orderId = id

def rely : Rely Tables Call Reply where
  admits := Fresh
  keeps := Redeems
  grows := OrdersStay
  refl _ _ o h := ⟨o, h, rfl⟩
  trans h h' x o ho := by
    obtain ⟨o', ho', heq⟩ := h x o ho
    obtain ⟨o'', ho'', heq'⟩ := h' x o' ho'
    exact ⟨o'', ho'', heq'.trans heq⟩

variable {s t : Tables} {transactionId : String} {id : OrderId}

theorem Placed.mono (h : Placed transactionId id s) (hst : OrdersStay s t) :
    Placed transactionId id t := by
  obtain ⟨o, ho, rfl⟩ := h
  exact hst transactionId o ho

theorem Opened.redeems (h : Opened s) : Redeems s where
  once := by simp [h.redeemed]
  owner := by simp [h.redeemed]
  complete := by simp [h.redeemed]
  orders := h.orders
  old := h.old

namespace Stays

protected theorem refl (s : Tables) : Stays s s := ⟨rfl, rfl, rfl, rfl, rfl, rfl⟩

protected theorem trans {u : Tables} (h : Stays s t) (h' : Stays t u) : Stays s u where
  info := h'.info.trans h.info
  rows := h'.rows.trans h.rows
  redeemed := h'.redeemed.trans h.redeemed
  date := h'.date.trans h.date
  index := h'.index.trans h.index
  now := h'.now.trans h.now

theorem createdFor (h : Stays s t) (id : OrderId) : t.createdFor id = s.createdFor id := by
  rw [Tables.createdFor, h.rows, Tables.createdFor]

theorem old (h : Stays s t) (hid : s.Old id) : t.Old id := by
  rw [Old, h.date, h.index, h.now]
  exact hid

theorem keeps (h : Stays s t) (hs : Redeems s) : Redeems t where
  once := by
    rw [h.redeemed]
    exact hs.once
  owner r hr := by
    rw [h.createdFor]
    exact hs.owner r (h.redeemed ▸ hr)
  complete r hr := by
    rw [h.info]
    exact hs.complete r (h.redeemed ▸ hr)
  orders x o ho := by
    rw [h.createdFor]
    exact hs.orders x o (h.info ▸ ho)
  old r hr := h.old (hs.old r (h.rows ▸ hr))

theorem ordersStay (h : Stays s t) : OrdersStay s t := by
  intro x o ho
  exact ⟨o, by rw [h.info, ho], rfl⟩

end Stays

theorem createdFor_updateRow (id id' : OrderId) (updates : List Update) :
    (s.updateRow id updates).createdFor id' = s.createdFor id' := by
  simp only [createdFor, updateRow]
  induction s.orderRows with
  | nil => rfl
  | cons r rows ih =>
      have hid : (if r.orderId = id then { r with toFields := r.setAll updates } else r).orderId
          = r.orderId := by split <;> rfl
      rw [List.map_cons, List.find?_cons, List.find?_cons, hid]
      by_cases hr : r.orderId = id'
      · simp only [hr, decide_true, Option.map_some]
        split <;> rfl
      · simp only [hr, decide_false]
        exact ih

theorem Redeems.updateRow (h : Redeems s) (id : OrderId) (updates : List Update) :
    Redeems (s.updateRow id updates) where
  once := h.once
  owner r hr := by
    rw [createdFor_updateRow]
    exact h.owner r hr
  complete := h.complete
  orders x o ho := by
    rw [createdFor_updateRow]
    exact h.orders x o ho
  old r hr := by
    obtain ⟨r', hr', rfl⟩ := List.mem_map.mp hr
    have hid : (if r'.orderId = id then { r' with toFields := r'.setAll updates } else r').orderId
        = r'.orderId := by split <;> rfl
    rw [hid]
    exact h.old r' hr'

section Columns

variable {o : Order} (h : Redeems s) (ho : s.appstorePaymentInfo transactionId = some o)
  (hopen : o.orderStatus ≠ .complete) (updates : List Update)

include h ho hopen in
theorem Redeems.fresh : transactionId ∉ s.redeemed.map Redeemed.transactionId := by
  intro hmem
  obtain ⟨r, hr, rfl⟩ := List.mem_map.mp hmem
  obtain ⟨o', ho', hdone⟩ := h.complete r hr
  obtain rfl := Option.some.inj (ho.symm.trans ho')
  exact hopen hdone

include h ho hopen in
theorem Redeems.setAppstoreFields : Redeems (s.setAppstoreFields transactionId o updates) where
  once := h.once
  owner := h.owner
  complete r hr := by
    have hne : r.transactionId ≠ transactionId := by
      rintro rfl
      exact h.fresh ho hopen (List.mem_map_of_mem hr)
    obtain ⟨o', ho', hdone⟩ := h.complete r hr
    exact ⟨o', by simpa [Tables.setAppstoreFields, hne] using ho', hdone⟩
  orders x o' ho' := by
    by_cases hx : x = transactionId
    · subst hx
      obtain rfl : { o with toFields := o.setAll updates } = o' := by
        simpa [Tables.setAppstoreFields] using ho'
      exact h.orders x o ho
    · exact h.orders x o' (by simpa [Tables.setAppstoreFields, hx] using ho')
  old := h.old

include ho in
theorem ordersStay_setAppstoreFields :
    OrdersStay s (s.setAppstoreFields transactionId o updates) := by
  intro x o' ho'
  by_cases hx : x = transactionId
  · subst hx
    obtain rfl := Option.some.inj (ho.symm.trans ho')
    exact ⟨{ o with toFields := o.setAll updates }, by simp [Tables.setAppstoreFields], rfl⟩
  · exact ⟨o', by simpa [Tables.setAppstoreFields, hx] using ho', rfl⟩

include h ho hopen in
theorem Redeems.redeem (hdone : (o.setAll updates).orderStatus = .complete) :
    Redeems ((s.setAppstoreFields transactionId o updates).redeem transactionId o.orderId
      o.playerId) := by
  have hs := h.setAppstoreFields ho hopen updates
  refine { once := ?_, owner := ?_, complete := ?_, orders := hs.orders, old := hs.old }
  · change ((s.redeemed ++ [_]).map Redeemed.transactionId).Nodup
    rw [List.map_append, List.nodup_append]
    refine ⟨h.once, List.nodup_singleton _, ?_⟩
    intro x hx y hy hxy
    obtain rfl := List.mem_singleton.mp hy
    exact h.fresh ho hopen (hxy ▸ hx)
  · intro r hr
    rcases List.mem_append.mp hr with hr | hr
    · exact h.owner r hr
    · obtain rfl := List.mem_singleton.mp hr
      exact h.orders transactionId o ho
  · intro r hr
    rcases List.mem_append.mp hr with hr | hr
    · exact hs.complete r hr
    · obtain rfl := List.mem_singleton.mp hr
      exact ⟨{ o with toFields := o.setAll updates }, by simp [Tables.redeem,
        Tables.setAppstoreFields], hdone⟩

end Columns

/-! ## Deliveries -/

structure Allows (R : Tables → Tables → Prop) : Prop where
  refl : ∀ s, R s s
  trans : ∀ {s t u}, R s t → R t u → R s u
  book : ∀ s id playerId gain, R s (book s id playerId gain)
  start : ∀ s id gains, R s (start s id gains)
  receiveBag : ∀ s playerId giftBagId, R s (receiveBag s playerId giftBagId)

section Deliveries

variable {R : Tables → Tables → Prop}

theorem Allows.changeAsset (h : Allows R) (id : OrderId) (playerId : PlayerId) (gain : Gain)
    (s : Tables) : (changeAsset id playerId gain s).Within R s := by
  refine ⟨h.refl s, fun a t => ?_⟩
  cases a with
  | error added =>
      cases added with
      | true => exact h.book t id playerId gain
      | false => exact h.refl t
  | changed => exact h.book t id playerId gain
  | _ => exact h.refl t

theorem Allows.changeAll (h : Allows R) (strict : Bool) (id : OrderId) (playerId : PlayerId)
    (gains : List Gain) (s : Tables) :
    (changeAll strict id playerId gains s).Within R s := by
  induction gains generalizing s with
  | nil => exact h.refl s
  | cons gain gains ih =>
      refine Prog.Within.bind (R := R) h.trans (h.changeAsset id playerId gain s) fun ok t => ?_
      by_cases hbad : strict ∧ ¬ok
      · rw [if_pos hbad]
        exact h.refl t
      · rw [if_neg hbad]
        exact ih t

theorem Allows.started (h : Allows R) (strict : Bool) (o : Order) (gains all : List Gain)
    (s : Tables) :
    (Tables.changeAll strict o.orderId o.playerId gains (s.start o.orderId all)).Within R s :=
  Prog.Within.of_step h.trans (h.start s o.orderId all)
    (h.changeAll strict o.orderId o.playerId gains _)

theorem Allows.completeShopOrder (h : Allows R) (o : Order) (detail : List Asset) (s : Tables) :
    (completeShopOrder o detail s).Within R s := by
  unfold Tables.completeShopOrder
  split
  · rename_i convert cc _
    cases convertRow cc o.convertId with
    | none => exact h.refl s
    | some d =>
        refine Prog.Within.bind (R := R) h.trans
          (h.started false o (d.gains convert) (d.gains convert) s) fun _ t => ?_
        cases d.giftAssetType with
        | none => exact h.refl t
        | some _ => exact h.refl t
  · exact h.started false o _ _ s

theorem Allows.completeGiftBagOrder (h : Allows R) (o : Order) (detail : List Asset)
    (s : Tables) : (completeGiftBagOrder o detail s).Within R s := by
  refine Prog.Within.bind (R := R) h.trans (h.started true o _ _ s) fun _ t => ?_
  refine ⟨h.receiveBag t o.playerId o.productId, fun a u => ?_⟩
  cases a with
  | _ => exact h.refl u

theorem Allows.deliver (h : Allows R) (o : Order) (goods : Goods) (detail : List Asset)
    (s : Tables) : (deliver o goods detail s).Within R s := by
  unfold Tables.deliver
  cases goods.shopType with
  | shop => exact h.completeShopOrder o detail s
  | giftBag => exact h.completeGiftBagOrder o detail s
  | other name => exact h.refl s

theorem within_specialStatus (hrefl : ∀ s, R s s) (playerId : PlayerId) (giftBagId : ProductId)
    {k : Service Nat} (hk : ∀ s, (k s).Within R s) (s : Tables) :
    (specialStatus playerId giftBagId k s).Within R s := by
  refine ⟨hrefl s, fun a t => ?_⟩
  cases a with
  | canBuy result =>
      cases result with
      | some ok => exact hrefl t
      | none =>
          refine ⟨hrefl t, fun a u => ?_⟩
          cases a with
          | canBuy result =>
              cases result with
              | some ok => exact hrefl u
              | none => exact hk u
          | _ => exact hrefl u
  | _ => exact hrefl t

theorem within_queryPlayerGiftBagStatus (hrefl : ∀ s, R s s) (playerId : PlayerId)
    (giftBagId : ProductId) (s : Tables) :
    (queryPlayerGiftBagStatus playerId giftBagId s).Within R s := by
  unfold queryPlayerGiftBagStatus
  cases giftBagId.find s.bags with
  | none => exact hrefl s
  | some bag =>
      refine within_specialStatus hrefl playerId giftBagId (fun t => ?_) s
      cases t.testStatus bag (t.boughtAt playerId giftBagId _) with
      | none => exact hrefl t
      | some result => exact hrefl t

theorem within_remote (hrefl : ∀ s, R s s) (htrans : ∀ {s t u}, R s t → R t u → R s u)
    (hbuy : ∀ s playerId giftBagId, R s (s.setGiftBags (s.playerBuyGiftBag playerId giftBagId)))
    (q : Ask) (s : Tables) : (remote q s).Within R s := by
  cases q with
  | changeAsset playerId gain =>
      refine ⟨hrefl s, fun a t => ?_⟩
      cases a with
      | _ => exact hrefl t
  | queryPlayerGiftBagStatus playerId giftBagId =>
      refine ⟨hrefl s, fun _ t => ?_⟩
      refine Prog.Within.bind (R := R) htrans
        (within_queryPlayerGiftBagStatus hrefl playerId giftBagId t).xpcall fun result u => ?_
      exact ⟨hrefl u, fun _ v => hrefl v⟩
  | playerBuyGiftBag playerId giftBagId =>
      exact ⟨hrefl s, fun _ t => ⟨hbuy t playerId giftBagId, fun _ u => hrefl u⟩⟩

end Deliveries

theorem now_playerBuyGiftBag (bags : GiftBags) (playerId : PlayerId) (giftBagId : ProductId) :
    (bags.playerBuyGiftBag playerId giftBagId).now = bags.now := by
  cases giftBagId with
  | str _ => rfl
  | num id =>
      simp only [GiftBags.playerBuyGiftBag]
      split
      · rfl
      · split <;> rfl

theorem allows_stays : Allows Stays where
  refl := .refl
  trans h h' := h.trans h'
  book _ _ _ _ := ⟨rfl, rfl, rfl, rfl, rfl, rfl⟩
  start _ _ _ := ⟨rfl, rfl, rfl, rfl, rfl, rfl⟩
  receiveBag _ _ _ := ⟨rfl, rfl, rfl, rfl, rfl, rfl⟩

/-! ## The steps of `verify_appstore_pay` -/

theorem stays_done {α : Type} {Q : α → Tables → Prop} {a : α} (hs : Redeems s)
    (hst : Stays s t) (hQ : Q a t) :
    (Prog.done t a : Prog Tables Call Reply α).Stays rely Q s :=
  ⟨hst.keeps hs, hst.ordersStay, hQ⟩

theorem stays_deliver (o : Order) (goods : Goods) (detail : List Asset) (hs : Redeems s) :
    (data (deliver o goods detail) s).Stays rely (fun _ _ => True) s := by
  have hwithin : (data (deliver o goods detail) s).Within Stays s :=
    Prog.Within.inline (R := Stays) allows_stays.trans (allows_stays.deliver o goods detail s)
      (within_remote allows_stays.refl allows_stays.trans fun t playerId giftBagId =>
        ⟨rfl, rfl, rfl, rfl, rfl, now_playerBuyGiftBag t.toGiftBags playerId giftBagId⟩)
  exact .of_within (fun s t hs h => ⟨h.keeps hs, h.ordersStay⟩) hs hwithin

theorem updates_appstore (m : ModifyAppstore) :
    ∃ rest, m.updates = .orderStatus m.orderStatus :: rest ∧
      ∀ u ∈ rest, ∀ v, u ≠ .orderStatus v := by
  refine ⟨m.errorDesc.toList.map .errorDesc ++ m.definitionId.toList.map .channelOrderId ++
    m.channelProductId.toList.map .channelProductId, rfl, ?_⟩
  intro u hu v
  simp only [List.mem_append, List.mem_map] at hu
  rcases hu with (⟨_, -, rfl⟩ | ⟨_, -, rfl⟩) | ⟨_, -, rfl⟩
  all_goals exact nofun

theorem stays_modify (m : ModifyAppstore) (hs : Redeems s) (hplace : Placed transactionId id s) :
    (data (modifyAppstoreOrder id transactionId m) s).Stays rely (fun _ _ => True) s := by
  obtain ⟨o, ho, rfl⟩ := hplace
  unfold data modifyAppstoreOrder
  rw [ho]
  dsimp only
  by_cases hdone : o.orderStatus = .complete
  · rw [if_pos hdone]
    exact stays_done hs (.refl s) trivial
  rw [if_neg hdone]
  by_cases hknown : m.orderStatus.known
  swap
  · rw [if_pos hknown]
    exact stays_done hs (.refl s) trivial
  rw [if_neg (not_not.mpr hknown)]
  by_cases hcomplete : m.orderStatus = .complete
  swap
  · rw [if_neg hcomplete]
    exact ⟨(hs.setAppstoreFields ho hdone _).updateRow _ _,
      ordersStay_setAppstoreFields ho _, trivial⟩
  rw [if_pos hcomplete]
  obtain ⟨rest, hupdates, hrest⟩ := updates_appstore m
  have hstatus : (o.setAll (o.changes m.updates ++
      if m.orderStatus = .complete then [.endTime s.now] else [])).orderStatus = .complete := by
    rw [hupdates, hcomplete, if_pos rfl]
    refine orderStatus_setAll_changes hrest fun u hu v => ?_
    obtain rfl := List.mem_singleton.mp hu
    exact nofun
  generalize o.changes m.updates ++
    (if m.orderStatus = .complete then [Update.endTime s.now] else []) = updates at hstatus ⊢
  have hset := hs.setAppstoreFields ho hdone updates
  have hgrows : OrdersStay s (s.setAppstoreFields transactionId o updates) :=
    ordersStay_setAppstoreFields ho updates
  unfold completeAppstoreOrder
  cases (s.setAppstoreFields transactionId o updates).paymentInfoDetail o.orderId with
  | none => exact ⟨hset, hgrows, trivial⟩
  | some detail =>
      dsimp only
      cases (o.setAll updates).channelProductId.bind
          (s.setAppstoreFields transactionId o updates).appstoreShopingGoodsConfig with
      | none => exact ⟨hset, hgrows⟩
      | some goods =>
          have hredeem : OrdersStay s ((s.setAppstoreFields transactionId o updates).redeem
              transactionId o.orderId o.playerId) := hgrows
          have hdeliver := stays_deliver { o with toFields := o.setAll updates } goods detail
            (hs.redeem ho hdone updates hstatus)
          refine Prog.Stays.inline_bind (Prog.Stays.of_grows (L := rely) hredeem ?_)
          exact hdeliver.bind fun _ t ht _ _ =>
            ⟨Redeems.updateRow ht _ _, (Stays.refl t).ordersStay, trivial⟩

theorem stays_callData {α : Type} {m : Message} {op : String → Service α}
    {Q : α → Tables → Prop} (hs : Redeems s)
    (hQ : ∀ a t u, OrdersStay t u → Q a t → Q a u)
    (hop : ∀ random t, Fresh (.request m) (.go random) t → Redeems t → OrdersStay s t →
      (op random t).Stays rely Q t) :
    (callData m op s).Stays rely Q s := by
  refine ⟨hs, (Stays.refl s).ordersStay, fun a t ha ht hst => ?_⟩
  cases a with
  | go random =>
      refine (hop random t ha ht hst).xpcall.bind fun result u hu _ hres => ?_
      refine ⟨hu, (Stays.refl u).ordersStay, fun _ v _ hv huv => ?_⟩
      cases result with
      | none => exact ⟨hv, (Stays.refl v).ordersStay⟩
      | some a => exact ⟨hv, (Stays.refl v).ordersStay, hQ a u v huv (hres a rfl)⟩
  | _ => exact ⟨ht, (Stays.refl t).ordersStay⟩

section Insert

variable {o : Order} {random : String} (assets : List Asset)

def inserted (s : Tables) (transactionId : String) (o : Order) (assets : List Asset) : Tables :=
  { s with
    lastPayOrderDate := some (serviceDay 0 s.now)
    lastPayOrderTodayIndex := s.nextIndex }.insertAppstoreOrder transactionId o assets

theorem createdFor_inserted {playerId : PlayerId} (h : s.createdFor id = some playerId) :
    (s.inserted transactionId o assets).createdFor id = some playerId := by
  obtain ⟨r, hr, rfl⟩ := Option.map_eq_some_iff.mp h
  change ((s.orderRows ++ [o.row]).find? _).map _ = _
  rw [List.find?_append, hr]
  rfl

theorem createdFor_inserted_new (hs : Redeems s) (hid : o.orderId = s.nextId random) :
    (s.inserted transactionId o assets).createdFor o.orderId = some o.playerId := by
  have hnone : (s.orderRows.find? fun r => r.orderId = o.orderId) = none := by
    refine List.find?_eq_none.mpr fun r hr heq => ?_
    rw [decide_eq_true_eq, hid] at heq
    exact not_old_nextId random (heq ▸ hs.old r hr)
  change ((s.orderRows ++ [o.row]).find? _).map _ = _
  rw [List.find?_append, hnone, List.find?_cons,
    decide_eq_true (show o.row.orderId = o.orderId from rfl)]
  rfl

theorem Redeems.inserted (hs : Redeems s) (hfresh : s.appstorePaymentInfo transactionId = none)
    (hid : o.orderId = s.nextId random) : Redeems (s.inserted transactionId o assets) where
  once := hs.once
  owner r hr := createdFor_inserted assets (hs.owner r hr)
  complete r hr := by
    obtain ⟨o', ho', hdone⟩ := hs.complete r hr
    have hne : r.transactionId ≠ transactionId := by
      rintro rfl
      exact Option.some_ne_none o' (ho'.symm.trans hfresh)
    refine ⟨o', ?_, hdone⟩
    change Function.update s.appstorePaymentInfo transactionId (some o) _ = _
    rw [Function.update_of_ne hne, ho']
  orders x o' ho' := by
    change Function.update s.appstorePaymentInfo transactionId (some o) x = _ at ho'
    by_cases hx : x = transactionId
    · rw [hx, Function.update_self] at ho'
      obtain rfl := Option.some.inj ho'
      exact createdFor_inserted_new assets hs hid
    · rw [Function.update_of_ne hx] at ho'
      exact createdFor_inserted assets (hs.orders x o' ho')
  old r hr := by
    refine old_next (s := s) (t := s.inserted transactionId o assets) rfl rfl rfl ?_
    rcases List.mem_append.mp hr with hr | hr
    · exact .inl (hs.old r hr)
    · obtain rfl := List.mem_singleton.mp hr
      exact .inr ⟨random, hid⟩

theorem ordersStay_inserted (hfresh : s.appstorePaymentInfo transactionId = none) :
    OrdersStay s (s.inserted transactionId o assets) := by
  intro x o' ho'
  have hne : x ≠ transactionId := by
    rintro rfl
    exact Option.some_ne_none o' (ho'.symm.trans hfresh)
  refine ⟨o', ?_, rfl⟩
  change Function.update s.appstorePaymentInfo transactionId (some o) x = _
  rw [Function.update_of_ne hne, ho']

end Insert

theorem stays_createAppstoreOrder (v : Verify) (random : String) (hs : Redeems s)
    (hfresh : s.appstorePaymentInfo v.transactionId = none) :
    let result := s.createAppstoreOrder v.userId v.productId v.transactionId v.isSandbox
      v.convert v.definitionId random
    Redeems result.2 ∧ OrdersStay s result.2 ∧
      ∀ id, result.1 = .ok id → Placed v.transactionId id result.2 := by
  simp only [createAppstoreOrder]
  cases s.appstoreShopingGoodsConfig v.productId with
  | none => exact ⟨hs, (Stays.refl s).ordersStay, nofun⟩
  | some goods =>
      refine ⟨hs.inserted goods.assets hfresh rfl,
        ordersStay_inserted goods.assets hfresh, fun id hid => ?_⟩
      obtain rfl := Except.ok.inj hid
      exact ⟨_, Function.update_self .., rfl⟩

theorem stays_findAppstoreOrder (v : Verify) (hs : Redeems s) :
    (findAppstoreOrder v s).Stays rely
      (fun r t => ∀ id, r = .ok id → Placed v.transactionId id t) s := by
  have hquery : (callQueryAppstoreOrder v.transactionId s).Stays rely
      (fun r t => ∀ o ∈ r, Placed v.transactionId o.orderId t) s := by
    refine stays_callData hs (fun a t u htu h o ho => (h o ho).mono htu) fun _ t _ ht _ => ?_
    exact ⟨ht, (Stays.refl t).ordersStay, fun o ho => ⟨o, ho, rfl⟩⟩
  refine hquery.bind fun order t ht _ horder => ?_
  cases order with
  | some o =>
      dsimp only
      split
      · exact ⟨ht, (Stays.refl t).ordersStay, nofun⟩
      split
      · exact ⟨ht, (Stays.refl t).ordersStay, nofun⟩
      · refine ⟨ht, (Stays.refl t).ordersStay, fun id hid => ?_⟩
        obtain rfl := Except.ok.inj hid
        exact horder o rfl
  | none =>
      refine stays_callData ht (fun a t u htu h id hid => (h id hid).mono htu)
        fun random u hfresh hu _ => ?_
      exact stays_createAppstoreOrder v random hu hfresh

theorem stays_sendModify (v : Verify) (status : OrderStatus) (desc : String) (hs : Redeems s)
    (hplace : Placed v.transactionId id s) :
    (sendModify id v status desc s).Stays rely (fun _ _ => True) s := by
  have hlock : Stays s (s.setPlayerLock v.userId false) := ⟨rfl, rfl, rfl, rfl, rfl, rfl⟩
  refine ⟨hlock.keeps hs, hlock.ordersStay, fun _ t _ ht hst => ?_⟩
  refine (stays_modify _ ht (hplace.mono (rely.trans hlock.ordersStay hst))).bind
    fun _ u hu _ _ => ?_
  exact ⟨hu, (Stays.refl u).ordersStay, trivial⟩

theorem stays_verifyReceipt (v : Verify) (desc : String) (hs : Redeems s)
    (hplace : Placed v.transactionId id s) :
    (verifyReceipt v id desc s).Stays rely (fun _ _ => True) s := by
  refine ⟨hs, (Stays.refl s).ordersStay, fun a t _ ht hst => ?_⟩
  have hplace := hplace.mono hst
  have hlock (u : Tables) : Stays u (u.setPlayerLock v.userId false) :=
    ⟨rfl, rfl, rfl, rfl, rfl, rfl⟩
  cases a with
  | receipt r =>
      cases r with
      | accepted =>
          have hmodify : (callData (modifyMessage id v .complete none) (fun _ => data
              (modifyAppstoreOrder id v.transactionId { orderStatus := .complete })) t).Stays
              rely (fun _ _ => True) t := by
            refine stays_callData ht (fun _ _ _ _ h => h) fun _ u _ hu htu => ?_
            exact stays_modify _ hu (hplace.mono htu)
          exact hmodify.bind fun _ u hu _ _ => stays_done hu (hlock u) trivial
      | unreachable => exact stays_done ht (hlock t) trivial
      | unreadable => exact stays_done ht (hlock t) trivial
      | status code => exact stays_sendModify v _ _ ht hplace
      | mismatch => exact stays_sendModify v _ _ ht hplace
  | _ => exact ⟨ht, (Stays.refl t).ordersStay⟩

theorem stays_verifyAppstorePay (v : Verify) (desc : String) (hs : Redeems s) :
    (verifyAppstorePay v desc s).Stays rely (fun _ _ => True) s := by
  have hlock (b : Bool) (u : Tables) : Stays u (u.setPlayerLock v.userId b) :=
    ⟨rfl, rfl, rfl, rfl, rfl, rfl⟩
  unfold verifyAppstorePay
  split
  · exact stays_done hs (.refl s) trivial
  split
  · exact stays_done hs (.refl s) trivial
  refine .of_grows (hlock true s).ordersStay ?_
  refine (stays_findAppstoreOrder v ((hlock true s).keeps hs)).bind fun order t ht _ hplace => ?_
  cases order with
  | error result => exact stays_done ht (hlock false t) trivial
  | ok id => exact stays_verifyReceipt v desc ht (hplace id rfl)

theorem Redeems.clock (h : Redeems s) (seconds : Nat) :
    Redeems { s with now := s.now + seconds } where
  once := h.once
  owner := h.owner
  complete := h.complete
  orders := h.orders
  old r hr := by
    obtain ⟨day, hday, hle, hlt⟩ := h.old r hr
    exact ⟨day, hday, hle.trans (serviceDay_mono 0 (by simp)), hlt⟩

theorem stays_handleVerify (e : VerifyEvent) (hs : Redeems s) :
    (handleVerify e s).Stays rely (fun _ _ => True) s := by
  cases e with
  | verifyAppstorePay v desc =>
      exact (stays_verifyAppstorePay v desc hs).bind fun _ t ht _ _ =>
        ⟨ht, (Stays.refl t).ordersStay, trivial⟩
  | updateShopingConfig goods appstore config =>
      exact stays_done hs ⟨rfl, rfl, rfl, rfl, rfl, rfl⟩ trivial
  | clock seconds => exact ⟨hs.clock seconds, fun x o ho => ⟨o, ho, rfl⟩, trivial⟩

end Tables

/-- While no order is made for a transaction that has one, each transaction is redeemed once
and by its owner. -/
theorem redeemed_once {s : Tables} {w : World Tables Call Reply Unit} (hs : s.Opened)
    (h : Reach (World.step handleVerify)
      (World.Admitted Tables.rely fun _ _ => True) ⟨s, []⟩ w) :
    w.state.RedeemedOnce := by
  have hstart : World.Relies Tables.rely (⟨s, []⟩ : World Tables Call Reply Unit) :=
    ⟨hs.redeems, nofun⟩
  have hall := World.relies_of_reach
    (fun s e hs _ => Tables.stays_handleVerify e hs) hstart h
  exact hall.1.toRedeemedOnce

instance decidableAdmitted (w : World Tables Call Reply Unit) (i : Input VerifyEvent Reply) :
    Decidable (w.Admitted Tables.rely (fun _ _ => True) i) := by
  cases i with
  | command e => exact .isTrue trivial
  | answer i a =>
      exact inferInstanceAs (Decidable (∀ x ∈ w.waiting[i]?, Fresh x.1 a w.state))

def appstoreShop : Tables where
  appstoreShopingGoodsConfig x :=
    if x = "jy.diamond" then
      some { id := 1, shopType := .shop, price := 600, assets :=
        [{ assetType := "diamond", assetCount := 600 }] }
    else none

theorem opened_appstoreShop : appstoreShop.Opened where
  redeemed := rfl
  orders _ _ h := by cases h
  old _ h := by cases h

def verifyBy (userId : PlayerId) : Input VerifyEvent Reply :=
  .command (.verifyAppstorePay
    { userId, productId := "jy.diamond", transactionId := "1000" } "")

def arrive (random : String) : Input VerifyEvent Reply := .answer 0 (.go random)

def verified : List (Input VerifyEvent Reply) :=
  [verifyBy "a", arrive "", arrive "", arrive "x", arrive "",
    .answer 0 (.receipt .accepted), arrive ""]

theorem redeemed_once_verified :
    (run (World.step handleVerify) ⟨appstoreShop, []⟩ verified).state.redeemed.map
        Redeemed.playerId = ["a"] ∧
      (run (World.step handleVerify) ⟨appstoreShop, []⟩ verified).state.RedeemedOnce :=
  ⟨by decide +kernel, redeemed_once opened_appstoreShop (reach_run (by decide +kernel))⟩

def InOrder (w : World Tables Call Reply Unit) : Input VerifyEvent Reply → Prop
  | .command _ => True
  | .answer i a => ∀ x ∈ w.waiting[i]?, Accepted x.1 a ∧
      (x.1.way = none ∨ ∀ y ∈ w.waiting.take i, y.1.way ≠ x.1.way)

instance decidableInOrder (w : World Tables Call Reply Unit) (i : Input VerifyEvent Reply) :
    Decidable (InOrder w i) := by
  cases i with
  | command e => exact .isTrue trivial
  | answer i a =>
      exact inferInstanceAs (Decidable (∀ x ∈ w.waiting[i]?, Accepted x.1 a ∧
        (x.1.way = none ∨ ∀ y ∈ w.waiting.take i, y.1.way ≠ x.1.way)))

def verifiedTwice : List (Input VerifyEvent Reply) :=
  [verifyBy "a", verifyBy "b", arrive "", arrive "", arrive "", arrive "", arrive "x",
    arrive "y", arrive "", arrive "", .answer 0 (.receipt .accepted), .answer 1 (.go "")]

/-- The second order takes the place of the first one; the details of the first order are
delivered to the player of the second. -/
theorem redeemed_by_other :
    ¬∀ s : Tables, s.Opened → ∀ w, Reach (World.step handleVerify) InOrder ⟨s, []⟩ w →
      w.state.RedeemedOnce := by
  intro h
  have hrun := (h appstoreShop opened_appstoreShop
    (run (World.step handleVerify) ⟨appstoreShop, []⟩ verifiedTwice)
    (reach_run (by decide +kernel))).owner
  revert hrun
  decide +kernel

end JyQipai.Payment
