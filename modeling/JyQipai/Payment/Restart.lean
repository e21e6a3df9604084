import JyQipai.Payment.Deliver
import JyQipai.Payment.Redeem

/-!
# Orders and a new start

The order that is read back has neither its `convert` nor its number of goods as a number.  So
goods that are not converted are delivered as without the new start, and gift bags are not
delivered at all.
-/

namespace JyQipai.Payment

open Lib Common AssetManage

/-! ## A call that is not disturbed -/

def nextReply (_ : Call) : List Reply → Reply × List Reply
  | [] => (.error, [])
  | r :: replies => (r, replies)

def serveAsk (q : Ask) (s : Tables) (replies : List Reply) : Answer × Tables × List Reply :=
  let r := (Tables.remote q s).serve nextReply replies
  (r.2.1.getD (.error false), r.1, r.2.2)

namespace Tables

def delivered (s : Tables) (id : OrderId) (m : Modify) (replies : List Reply) :
    List (PlayerId × AssetType × Option Int) :=
  let t := ((modifyPayOrder id m s).answered serveAsk replies).1
  (t.booked.drop s.booked.length).map fun b => (b.playerId, b.gain.assetType, b.gain.value)

def loaded : List Reply → Answer
  | .loaded a :: _ => a
  | _ => .error false

theorem serveAsk_changeAsset (playerId : PlayerId) (gain : Gain) (s : Tables)
    (replies : List Reply) :
    serveAsk (.changeAsset playerId gain) s replies = (loaded replies, s, replies.tail) := by
  cases replies with
  | nil => rfl
  | cons r replies => cases r <;> rfl

def added {α : Type} (strict : Bool) : List α → List Reply → List α
  | [], _ => []
  | gain :: gains, replies =>
      match loaded replies with
      | .changed => gain :: added strict gains replies.tail
      | .refused => if strict then [] else added strict gains replies.tail
      | .error true => [gain]
      | _ => []

theorem map_added {α β : Type} (f : α → β) (strict : Bool) (gains : List α)
    (replies : List Reply) :
    (added strict gains replies).map f = added strict (gains.map f) replies := by
  induction gains generalizing replies with
  | nil => rfl
  | cons gain gains ih =>
      simp only [added, List.map_cons]
      cases loaded replies with
      | changed => simp [ih]
      | refused => cases strict <;> simp [ih]
      | error behind => cases behind <;> simp
      | _ => simp

theorem added_changed {α : Type} (strict : Bool) (gains : List α) {n : Nat}
    (hn : gains.length ≤ n) : added strict gains (List.replicate n (.loaded .changed)) = gains := by
  induction gains generalizing n with
  | nil => rfl
  | cons gain gains ih =>
      cases n with
      | zero => simp at hn
      | succ n => simp [added, loaded, List.replicate_succ, ih (by simpa using hn)]

theorem booked_changeAll (strict : Bool) (id : OrderId) (playerId : PlayerId)
    (gains : List Gain) (s : Tables) (replies : List Reply) :
    ((changeAll strict id playerId gains s).answered serveAsk replies).1.booked =
      s.booked ++ (added strict gains replies).map (⟨id, playerId, ·⟩) := by
  induction gains generalizing s replies with
  | nil => simp [changeAll, Prog.answered, added]
  | cons gain gains ih =>
      simp only [changeAll, changeAsset, Prog.bind, Prog.answered, serveAsk_changeAsset, added]
      cases loaded replies with
      | changed => simp [Prog.bind, ih, book]
      | refused => cases strict <;> simp [Prog.bind, Prog.answered, ih]
      | error behind => cases behind <;> simp [Prog.bind, Prog.answered, book]
      | _ => simp [Prog.bind, Prog.answered]

structure SameBooked (s t : Tables) : Prop where
  booked : t.booked = s.booked
  detail : t.paymentInfoDetail = s.paymentInfoDetail

theorem SameBooked.refl (s : Tables) : SameBooked s s := ⟨rfl, rfl⟩

theorem SameBooked.trans {s t u : Tables} (h : SameBooked s t) (h' : SameBooked t u) :
    SameBooked s u :=
  ⟨h'.booked.trans h.booked, h'.detail.trans h.detail⟩

theorem sameBooked_serveAsk (q : Ask) (s : Tables) (replies : List Reply) :
    SameBooked s (serveAsk q s replies).2.1 := by
  rw [serveAsk, Prog.serve_eq_answered]
  exact Prog.answered_within (R := SameBooked) (fun h h' => h.trans h') (fun _ s _ => .refl s)
    (within_remote .refl (fun h h' => h.trans h') (fun _ _ _ => ⟨rfl, rfl⟩) q s) replies

theorem SameBooked.answered {α : Type} {p : Prog Tables Ask Answer α} {s : Tables}
    (hp : p.Within SameBooked s) (replies : List Reply) :
    SameBooked s (p.answered serveAsk replies).1 :=
  Prog.answered_within (R := SameBooked) (fun h h' => h.trans h') sameBooked_serveAsk hp replies

theorem booked_bind {α β : Type} (p : Prog Tables Ask Answer α) (f : α → Op β)
    (hf : ∀ a s, (f a s).Within SameBooked s) (replies : List Reply) :
    ((p.bind f).answered serveAsk replies).1.booked =
      (p.answered serveAsk replies).1.booked := by
  rw [Prog.answered_bind]
  rcases p.answered serveAsk replies with ⟨s, _ | a, replies⟩
  · rfl
  · exact (SameBooked.answered (hf a s) replies).booked

def shopGains (s : Tables) (o : Order) (detail : List Asset) : List Gain :=
  match s.converted o with
  | some (convert, cc) => ((convertRow cc o.convertId).map fun d => d.gains convert).getD []
  | none => (detail.filter fun a => isAsset a.assetType).map Asset.gain

theorem booked_completeShopOrder (o : Order) (detail : List Asset) (s : Tables)
    (replies : List Reply) :
    ((completeShopOrder o detail s).answered serveAsk replies).1.booked =
      s.booked ++
        (added false (s.shopGains o detail) replies).map (⟨o.orderId, o.playerId, ·⟩) := by
  unfold completeShopOrder shopGains
  rcases s.converted o with _ | ⟨convert, cc⟩
  · exact booked_changeAll false o.orderId o.playerId _ _ replies
  · dsimp only
    cases hrow : convertRow cc o.convertId with
    | none => simp [Prog.answered, added]
    | some d =>
        refine (booked_bind _ _ (fun _ t => ?_) replies).trans (booked_changeAll ..)
        cases d.giftAssetType <;> exact .refl t

theorem booked_completeGiftBagOrder (o : Order) (detail : List Asset) (s : Tables)
    (replies : List Reply) :
    ((completeGiftBagOrder o detail s).answered serveAsk replies).1.booked =
      s.booked ++ (added true (detail.map (Asset.bagGain o.productId)) replies).map
        (⟨o.orderId, o.playerId, ·⟩) := by
  unfold completeGiftBagOrder
  refine (booked_bind _ _ (fun _ t => ?_) replies).trans (booked_changeAll ..)
  refine ⟨⟨rfl, rfl⟩, fun a u => ?_⟩
  cases a <;> exact SameBooked.refl u

/-! ## A whole call -/

theorem booked_modifyPayOrder {s : Tables} {id : OrderId} {o : Order} {procid : Nat}
    (hinfo : s.paymentInfo id = some o) (hstatus : o.orderStatus = .init)
    (hproc : o.productId.toNumber = some procid)
    (hfree : s.modifyPayOrderPlayerLock o.playerId = false) (m : Modify)
    (hm : m.orderStatus = .complete) (replies : List Reply) :
    ((modifyPayOrder id m s).answered serveAsk replies).1.booked =
      ((modifyOrder o procid m (s.setLock o.playerId true)).answered serveAsk
        replies).1.booked := by
  unfold modifyPayOrder
  simp only [hinfo, hstatus, hm, hproc, hfree]
  simp only [reduceCtorEq, if_false, OrderStatus.known, not_true_eq_false, Bool.false_eq_true]
  refine (booked_bind _ _ (fun _ t => ?_) replies).trans ?_
  · exact ⟨rfl, rfl⟩
  · rw [Prog.answered_xpcall]

theorem within_checkGiftBag (o : Order) (goods : Goods) (m : Modify) (s : Tables) :
    (checkGiftBag o goods m s).Within SameBooked s := by
  unfold checkGiftBag
  split
  · refine ⟨.refl s, fun a t => ?_⟩
    cases a with
    | status result =>
        dsimp only
        split <;> exact .refl t
    | _ => exact .refl t
  · exact .refl s

theorem sameBooked_setFields (s : Tables) (id : OrderId) (updates : List Update) :
    SameBooked s (s.setFields id updates) := by
  unfold setFields
  split <;> exact ⟨rfl, rfl⟩

theorem within_writeOrder (o : Order) (goods : Goods) (errcode : Option Nat) {m : Modify}
    (hm : m.orderStatus ≠ .complete) (s : Tables) :
    (writeOrder o goods errcode m s).Within SameBooked s := by
  have hset := sameBooked_setFields s o.orderId (s.written o.orderId m)
  unfold writeOrder
  dsimp only
  rw [if_neg hm]
  split <;> exact ⟨hset.booked, hset.detail⟩

theorem checkGiftBag_other (o : Order) (goods : Goods) {m : Modify}
    (hm : ¬(goods.shopType = .giftBag ∧ m.orderStatus = .complete)) (s : Tables) :
    checkGiftBag o goods m s = .done s (none, m) := by
  rw [checkGiftBag, if_neg hm]

theorem within_modifyPayOrder (id : OrderId) {m : Modify} (hm : m.orderStatus ≠ .complete)
    (s : Tables) : (modifyPayOrder id m s).Within SameBooked s := by
  have hrun (o : Order) (procid : Nat) :
      ((modifyOrder o procid m (s.setLock o.playerId true)).xpcall.bind fun r s =>
        Prog.done (s.setLock o.playerId false) (Result.ofCall r)).Within SameBooked s := by
    refine Prog.Within.bind (R := SameBooked) (fun h h' => h.trans h')
      (Prog.Within.xpcall ?_) fun _ t => ⟨rfl, rfl⟩
    unfold modifyOrder
    split
    · exact ⟨rfl, rfl⟩
    · next goods hgoods =>
      rw [checkGiftBag_other o goods fun h => hm h.2]
      exact Prog.Within.of_step (R := SameBooked) (fun h h' => h.trans h')
        (t := s.setLock o.playerId true) ⟨rfl, rfl⟩ (within_writeOrder o goods none hm _)
  unfold modifyPayOrder
  split
  · exact SameBooked.refl s
  · next o hinfo =>
    repeat' split
    all_goals first
      | exact hrun o _
      | exact SameBooked.refl s

theorem written_ne_nil (s : Tables) (id : OrderId) {m : Modify}
    (hm : m.orderStatus = .complete) : s.written id m ≠ [] := by
  simp [written, hm]

theorem frame_setFields (s : Tables) (id : OrderId) (updates : List Update) :
    (s.setFields id updates).booked = s.booked ∧
      (s.setFields id updates).paymentInfoDetail = s.paymentInfoDetail ∧
      (s.setFields id updates).shopingConfig = s.shopingConfig := by
  unfold setFields
  split <;> exact ⟨rfl, rfl, rfl⟩

theorem booked_writeOrder (o : Order) (goods : Goods) (errcode : Option Nat) {m : Modify}
    (hm : m.orderStatus = .complete) (s : Tables) (replies : List Reply) :
    ((writeOrder o goods errcode m s).answered serveAsk replies).1.booked =
      match s.paymentInfoDetail o.orderId with
      | none => s.booked
      | some detail => ((deliver o goods detail (s.setFields o.orderId (s.written o.orderId m))
          ).answered serveAsk replies).1.booked := by
  obtain ⟨hbooked, hdetail, -⟩ := s.frame_setFields o.orderId (s.written o.orderId m)
  unfold writeOrder
  dsimp only
  rw [if_neg (s.written_ne_nil o.orderId hm), if_pos hm, hdetail]
  cases s.paymentInfoDetail o.orderId with
  | none => exact hbooked
  | some detail =>
      refine booked_bind _ _ (fun _ t => ?_) replies
      exact ⟨rfl, rfl⟩

theorem booked_shop {s : Tables} {o : Order} {procid : Nat} {goods : Goods} {m : Modify}
    (hgoods : s.shopingGoodsConfig procid = some goods) (hshop : goods.shopType = .shop)
    (hm : m.orderStatus = .complete) (replies : List Reply) :
    ((modifyOrder o procid m s).answered serveAsk replies).1.booked =
      s.booked ++ match s.paymentInfoDetail o.orderId with
        | none => []
        | some detail =>
            (added false (s.shopGains o detail) replies).map (⟨o.orderId, o.playerId, ·⟩) := by
  unfold modifyOrder
  rw [hgoods]
  dsimp only
  rw [checkGiftBag_other o goods fun h => by rw [hshop] at h; cases h.1]
  refine (booked_writeOrder o goods none hm s replies).trans ?_
  obtain ⟨hbooked, -, hconfig⟩ := s.frame_setFields o.orderId (s.written o.orderId m)
  cases s.paymentInfoDetail o.orderId with
  | none => simp
  | some detail =>
      have hgains : (s.setFields o.orderId (s.written o.orderId m)).shopGains o detail =
          s.shopGains o detail := by
        rw [shopGains, shopGains, converted, converted, hconfig]
      simp only [deliver, hshop]
      rw [booked_completeShopOrder, hbooked, hgains]

/-! ## Gift bags -/

theorem serveAsk_unknown (playerId : PlayerId) {giftBagId : ProductId} {s : Tables}
    (hbag : giftBagId.find s.bags = none) (replies : List Reply) :
    serveAsk (.queryPlayerGiftBagStatus playerId giftBagId) s replies =
      (.status 1001, s, replies.tail.tail) := by
  have hquery : queryPlayerGiftBagStatus playerId giftBagId s = .done s 1001 := by
    rw [queryPlayerGiftBagStatus, hbag]
  cases replies with
  | nil => simp [serveAsk, remote, Prog.serve, nextReply, hquery, Prog.xpcall, Prog.bind]
  | cons r replies =>
      cases replies <;>
        simp [serveAsk, remote, Prog.serve, nextReply, hquery, Prog.xpcall, Prog.bind]

theorem booked_unknown {s : Tables} {o : Order} {procid : Nat} {goods : Goods} {m : Modify}
    (hgoods : s.shopingGoodsConfig procid = some goods) (hbag : goods.shopType = .giftBag)
    (hm : m.orderStatus = .complete) (hunknown : o.productId.find s.bags = none)
    (replies : List Reply) :
    ((modifyOrder o procid m s).answered serveAsk replies).1.booked = s.booked := by
  unfold modifyOrder
  rw [hgoods]
  dsimp only
  rw [checkGiftBag, if_pos ⟨hbag, hm⟩]
  simp only [Prog.bind, Prog.answered, serveAsk_unknown o.playerId hunknown]
  refine (SameBooked.answered (within_writeOrder o goods (some 1001) ?_ s) _).booked
  exact fun h => by cases h

theorem booked_empty {s : Tables} {o : Order} {procid : Nat} {goods : Goods}
    (hgoods : s.shopingGoodsConfig procid = some goods) (hbag : goods.shopType = .giftBag)
    (hdetail : s.paymentInfoDetail o.orderId = some []) (m : Modify) (replies : List Reply) :
    ((modifyOrder o procid m s).answered serveAsk replies).1.booked = s.booked := by
  unfold modifyOrder
  rw [hgoods]
  dsimp only
  have hcheck := SameBooked.answered (within_checkGiftBag o goods m s) replies
  have hbind : ((checkGiftBag o goods m s).bind fun r t => writeOrder o goods r.1 r.2 t).answered
      serveAsk replies = _ := Prog.answered_bind _ _ replies
  refine (congrArg (fun r => r.1.booked) hbind).trans ?_
  generalize (checkGiftBag o goods m s).answered serveAsk replies = r at hcheck
  obtain ⟨t, _ | ⟨errcode, m⟩, replies⟩ := r
  · exact hcheck.booked
  · refine Eq.trans ?_ hcheck.booked
    by_cases hm : m.orderStatus = .complete
    · obtain ⟨hbooked, -, -⟩ := t.frame_setFields o.orderId (t.written o.orderId m)
      refine (booked_writeOrder o goods errcode hm t replies).trans ?_
      rw [hcheck.detail, hdetail]
      simp only [deliver, hbag]
      rw [booked_completeGiftBagOrder, hbooked]
      simp [added]
    · exact (SameBooked.answered (within_writeOrder o goods errcode hm t) replies).booked

def bagReplies (detail : List Asset) : List Reply :=
  [.go "", .canBuy (some true), .go ""] ++ List.replicate detail.length (.loaded .changed)

theorem booked_bag {s : Tables} {o : Order} {n procid : Nat} {goods : Goods} {bag : GiftBag}
    {detail : List Asset} {m : Modify} (hgoods : s.shopingGoodsConfig procid = some goods)
    (hbag : goods.shopType = .giftBag) (hm : m.orderStatus = .complete)
    (hproduct : o.productId = .num n) (hknown : s.bags n = some bag)
    (hdetail : s.paymentInfoDetail o.orderId = some detail) :
    ((modifyOrder o procid m s).answered serveAsk (bagReplies detail)).1.booked =
      s.booked ++ detail.map fun a => ⟨o.orderId, o.playerId, a.bagGain o.productId⟩ := by
  have hserve : serveAsk (.queryPlayerGiftBagStatus o.playerId o.productId) s
      (bagReplies detail) = (.status 0, s, List.replicate detail.length (.loaded .changed)) := by
    have hfind : o.productId.find s.bags = some bag := by rw [hproduct]; exact hknown
    simp [serveAsk, remote, Prog.serve, nextReply, bagReplies, queryPlayerGiftBagStatus, hfind,
      specialStatus, Prog.xpcall, Prog.bind]
  unfold modifyOrder
  rw [hgoods]
  dsimp only
  rw [checkGiftBag, if_pos ⟨hbag, hm⟩]
  simp only [Prog.bind, Prog.answered, hserve]
  obtain ⟨hbooked, -, -⟩ := s.frame_setFields o.orderId (s.written o.orderId m)
  refine (booked_writeOrder o goods none hm s _).trans ?_
  rw [hdetail]
  simp only [deliver, hbag]
  rw [booked_completeGiftBagOrder, hbooked]
  rw [added_changed true _ (List.length_map _).le, List.map_map]
  rfl

/-! ## Reading the rows -/

theorem foldl_readOrder (rows : List OrderRow) (info : OrderId → Option Order) (id : OrderId) :
    rows.foldl readOrder info id =
      ((rows.filter (·.orderId = id)).getLast?.map OrderRow.order).or (info id) := by
  induction rows generalizing info with
  | nil => rfl
  | cons r rows ih =>
      rw [List.foldl_cons, ih, readOrder, List.filter_cons]
      by_cases hr : r.orderId = id
      · subst hr
        rw [Function.update_self, if_pos (decide_eq_true rfl), List.getLast?_cons]
        cases (rows.filter (·.orderId = r.orderId)).getLast? <;> rfl
      · rw [Function.update_of_ne (Ne.symm hr), if_neg (by simpa using hr)]

def DetailRow.asset (r : DetailRow) : Asset := ⟨r.assetType, r.assetCount, r.goodsType⟩

theorem foldl_readDetail (rows : List DetailRow) (info : OrderId → Option (List Asset))
    (id : OrderId) :
    rows.foldl readDetail info id =
      if rows.filter (·.orderId = id) = [] then info id
      else some ((info id).getD [] ++ (rows.filter (·.orderId = id)).map DetailRow.asset) := by
  induction rows generalizing info with
  | nil => rfl
  | cons r rows ih =>
      rw [List.foldl_cons, ih, readDetail, List.filter_cons]
      by_cases hr : r.orderId = id
      · subst hr
        rw [Function.update_self, if_pos (decide_eq_true rfl), if_neg (List.cons_ne_nil _ _)]
        split
        · next hnil =>
          rw [hnil]
          rfl
        · simp [DetailRow.asset]
      · rw [Function.update_of_ne (Ne.symm hr),
          if_neg (c := decide (r.orderId = id) = true) (by simpa using hr)]

def detailRow (id : OrderId) (a : Asset) : DetailRow := ⟨id, a.assetType, a.assetCount, a.goodsType⟩

structure Stored (s : Tables) (id : OrderId) (o : Order) (detail : List Asset) : Prop where
  info : s.paymentInfo id = some o
  orderId : o.orderId = id
  status : o.orderStatus = .init
  details : s.paymentInfoDetail id = some detail
  orderRows : s.orderRows.filter (·.orderId = id) = [o.row]
  detailRows : s.detailRows.filter (·.orderId = id) = detail.map (detailRow id)

theorem Stored.restored {s : Tables} {id : OrderId} {o : Order} {detail : List Asset}
    (h : Stored s id o detail) :
    s.initPaymentInfo.paymentInfo id = some o.row.order ∧
      s.initPaymentInfo.paymentInfoDetail id = if detail = [] then none else some detail := by
  constructor
  · change s.orderRows.foldl readOrder _ id = _
    rw [foldl_readOrder, h.orderRows]
    rfl
  · change s.detailRows.foldl readDetail _ id = _
    rw [foldl_readDetail, h.detailRows]
    simp only [List.map_eq_nil_iff, List.map_map]
    split
    · rfl
    · simp [Function.comp_def, DetailRow.asset, detailRow]

/-! ## With and without a new start -/

def contents (gains : List Gain) : List (AssetType × Option Int) :=
  gains.map fun g => (g.assetType, g.value)

def goodsGains (detail : List Asset) : List Gain :=
  (detail.filter fun a => isAsset a.assetType).map Asset.gain

section Delivered

variable {s : Tables} {id : OrderId} {o : Order} {detail : List Asset} {procid : Nat}
  {goods : Goods} {m : Modify}

theorem delivered_eq (s : Tables) (id : OrderId) (m : Modify) (replies : List Reply)
    {l : List Booking}
    (h : ((modifyPayOrder id m s).answered serveAsk replies).1.booked = s.booked ++ l) :
    s.delivered id m replies =
      l.map fun b => (b.playerId, b.gain.assetType, b.gain.value) := by
  simp only [delivered, h, List.drop_left]

theorem delivered_other (hm : m.orderStatus ≠ .complete) (s : Tables) (id : OrderId)
    (replies : List Reply) : s.delivered id m replies = [] := by
  refine s.delivered_eq id m replies (l := []) ?_
  rw [List.append_nil]
  exact (SameBooked.answered (within_modifyPayOrder id hm s) replies).booked

theorem delivered_shop (hinfo : s.paymentInfo id = some o) (hid : o.orderId = id)
    (hstatus : o.orderStatus = .init) (hproc : o.productId.toNumber = some procid)
    (hfree : s.modifyPayOrderPlayerLock o.playerId = false) (hm : m.orderStatus = .complete)
    (hgoods : s.shopingGoodsConfig procid = some goods) (hshop : goods.shopType = .shop)
    (replies : List Reply) :
    s.delivered id m replies =
      (added false (match s.paymentInfoDetail id with
        | none => []
        | some detail => contents (s.shopGains o detail)) replies).map
          fun x => (o.playerId, x.1, x.2) := by
  have hbooked := booked_modifyPayOrder hinfo hstatus hproc hfree m hm replies
  rw [booked_shop (s := s.setLock o.playerId true) hgoods hshop hm replies] at hbooked
  rw [s.delivered_eq id m replies hbooked]
  have hdetail : (s.setLock o.playerId true).paymentInfoDetail o.orderId =
      s.paymentInfoDetail id := by rw [hid]; rfl
  rw [hdetail]
  cases s.paymentInfoDetail id with
  | none => rfl
  | some detail =>
      dsimp only
      rw [contents, ← map_added, List.map_map, List.map_map]
      rfl

theorem delivered_nothing (hinfo : s.paymentInfo id = some o)
    (hstatus : o.orderStatus = .init) (hproc : o.productId.toNumber = some procid)
    (hfree : s.modifyPayOrderPlayerLock o.playerId = false) (hm : m.orderStatus = .complete)
    (replies : List Reply)
    (h : ((modifyOrder o procid m (s.setLock o.playerId true)).answered serveAsk
      replies).1.booked = s.booked) :
    s.delivered id m replies = [] := by
  refine s.delivered_eq id m replies (l := []) ?_
  rw [booked_modifyPayOrder hinfo hstatus hproc hfree m hm, h, List.append_nil]

theorem booked_noGoods (hgoods : s.shopingGoodsConfig procid = none) (replies : List Reply) :
    ((modifyOrder o procid m s).answered serveAsk replies).1.booked = s.booked := by
  unfold modifyOrder
  rw [hgoods]
  rfl

theorem booked_otherType {name : String} (hgoods : s.shopingGoodsConfig procid = some goods)
    (htype : goods.shopType = .other name) (hm : m.orderStatus = .complete)
    (replies : List Reply) :
    ((modifyOrder o procid m s).answered serveAsk replies).1.booked = s.booked := by
  unfold modifyOrder
  rw [hgoods]
  dsimp only
  rw [checkGiftBag_other o goods fun h => by rw [htype] at h; cases h.1]
  refine (booked_writeOrder o goods none hm s replies).trans ?_
  cases s.paymentInfoDetail o.orderId with
  | none => rfl
  | some detail =>
      simp only [deliver, htype]
      exact (s.frame_setFields o.orderId (s.written o.orderId m)).1

end Delivered

/-- Goods of a shop are not converted, or into what they give themselves; a gift bag is empty, or
`pay_service` does not know it. -/
def Restorable (s : Tables) (o : Order) (detail : List Asset) (n : Nat) : Prop :=
  ∀ goods, s.shopingGoodsConfig n = some goods →
    (goods.shopType = .shop → ∀ convert cc, s.converted o = some (convert, cc) →
      contents (((convertRow cc o.convertId).map fun d => d.gains convert).getD []) =
        contents (goodsGains detail)) ∧
    (goods.shopType = .giftBag → s.bags n = none ∨ detail = [])

section Restored

variable {s : Tables} {id : OrderId} {o : Order} {detail : List Asset} {n : Nat} {goods : Goods}
  {m : Modify}

theorem Stored.toNumber (_ : Stored s id o detail) (hproduct : o.productId = .num n) :
    o.row.order.productId.toNumber = some n := by
  change (o.row.productId).toNat? = some n
  rw [Order.row, hproduct]
  exact Nat.toNat?_repr n

theorem Stored.delivered_shop (h : Stored s id o detail) (hproduct : o.productId = .num n)
    (hfree : s.modifyPayOrderPlayerLock o.playerId = false) (hm : m.orderStatus = .complete)
    (hgoods : s.shopingGoodsConfig n = some goods) (hshop : goods.shopType = .shop)
    (replies : List Reply) :
    s.delivered id m replies = (added false (contents (s.shopGains o detail)) replies).map
        (fun x => (o.playerId, x.1, x.2)) ∧
      s.initPaymentInfo.delivered id m replies =
        (added false (contents (goodsGains detail)) replies).map
          fun x => (o.playerId, x.1, x.2) := by
  have hproc : o.productId.toNumber = some n := by rw [hproduct]; rfl
  obtain ⟨hinfo, hdetails⟩ := h.restored
  have hproc' := h.toNumber hproduct
  constructor
  · rw [Tables.delivered_shop h.info h.orderId h.status hproc hfree hm hgoods hshop replies,
      h.details]
  · have hgoods' : s.initPaymentInfo.shopingGoodsConfig n = some goods := hgoods
    rw [Tables.delivered_shop hinfo h.orderId h.status hproc' rfl hm hgoods' hshop replies,
      hdetails]
    have hgains : s.initPaymentInfo.shopGains o.row.order detail = goodsGains detail := rfl
    split
    · next hnone =>
      split at hnone
      · next hnil => rw [hnil]; rfl
      · cases hnone
    · next d hsome =>
      split at hsome
      · cases hsome
      · cases hsome
        rw [hgains]
        rfl

theorem Stored.delivered_bag (h : Stored s id o detail) (hproduct : o.productId = .num n)
    (hm : m.orderStatus = .complete)
    (hgoods : s.shopingGoodsConfig n = some goods) (hbag : goods.shopType = .giftBag)
    (replies : List Reply) : s.initPaymentInfo.delivered id m replies = [] := by
  obtain ⟨hinfo, -⟩ := h.restored
  have hproc' := h.toNumber hproduct
  exact delivered_nothing hinfo h.status hproc' rfl hm replies
    (booked_unknown (s := s.initPaymentInfo.setLock o.playerId true) hgoods hbag hm rfl replies)

theorem Stored.shop_iff (hgoods : s.shopingGoodsConfig n = some goods)
    (hshop : goods.shopType = .shop) (hrest : s.Restorable o detail n) :
    contents (s.shopGains o detail) = contents (goodsGains detail) := by
  have hconvert := (hrest goods hgoods).1 hshop
  unfold shopGains
  cases hconv : s.converted o with
  | none => rfl
  | some x => exact hconvert x.1 x.2 hconv

theorem Stored.same_iff (h : Stored s id o detail) (hproduct : o.productId = .num n)
    (hfree : s.modifyPayOrderPlayerLock o.playerId = false) :
    (∀ m replies, s.delivered id m replies = s.initPaymentInfo.delivered id m replies) ↔
      s.Restorable o detail n := by
  have hproc : o.productId.toNumber = some n := by rw [hproduct]; rfl
  constructor
  · intro hall goods hgoods
    constructor
    · intro hshop convert cc hconv
      obtain ⟨hs, hr⟩ := h.delivered_shop (m := { orderStatus := .complete }) hproduct hfree rfl
        hgoods hshop (List.replicate ((contents (s.shopGains o detail)).length +
          (contents (goodsGains detail)).length) (.loaded .changed))
      have heq := hall { orderStatus := .complete } (List.replicate
        ((contents (s.shopGains o detail)).length +
          (contents (goodsGains detail)).length) (.loaded .changed))
      rw [hs, hr, added_changed _ _ (Nat.le_add_right _ _),
        added_changed _ _ (Nat.le_add_left _ _)] at heq
      have hinj : Function.Injective fun x : AssetType × Option Int =>
          (o.playerId, x.1, x.2) := fun x y hxy => by cases x; cases y; simpa using hxy
      have heq := List.map_injective_iff.mpr hinj heq
      rwa [shopGains, hconv] at heq
    · intro hbag
      by_contra hnot
      rw [not_or] at hnot
      obtain ⟨bag, hknown⟩ := Option.ne_none_iff_exists'.mp hnot.1
      have heq := hall { orderStatus := .complete } (bagReplies detail)
      rw [h.delivered_bag hproduct rfl hgoods hbag] at heq
      have hbooked := booked_modifyPayOrder h.info h.status hproc hfree
        { orderStatus := .complete } rfl (bagReplies detail)
      rw [booked_bag (s := s.setLock o.playerId true) hgoods hbag rfl hproduct hknown
        (by rw [h.orderId]; exact h.details)] at hbooked
      rw [s.delivered_eq id _ _ hbooked] at heq
      simp only [List.map_eq_nil_iff] at heq
      exact hnot.2 heq
  · intro hrest m replies
    by_cases hm : m.orderStatus = .complete
    · obtain ⟨hinfo, -⟩ := h.restored
      have hproc' := h.toNumber hproduct
      cases hgoods : s.shopingGoodsConfig n with
      | none =>
          rw [delivered_nothing h.info h.status hproc hfree hm replies
              (booked_noGoods (s := s.setLock o.playerId true) hgoods replies),
            delivered_nothing hinfo h.status hproc' rfl hm replies
              (booked_noGoods (s := s.initPaymentInfo.setLock o.playerId true) hgoods replies)]
      | some goods =>
          cases htype : goods.shopType with
          | shop =>
              obtain ⟨hs, hr⟩ := h.delivered_shop hproduct hfree hm hgoods htype replies
              rw [hs, hr, Stored.shop_iff hgoods htype hrest]
          | giftBag =>
              rw [h.delivered_bag hproduct hm hgoods htype]
              refine delivered_nothing h.info h.status hproc hfree hm replies ?_
              rcases (hrest goods hgoods).2 htype with hbag | rfl
              · exact booked_unknown (s := s.setLock o.playerId true) hgoods htype hm
                  (by rw [hproduct]; exact hbag) replies
              · exact booked_empty (s := s.setLock o.playerId true) hgoods htype
                  (by rw [h.orderId]; exact h.details) m replies
          | other name =>
              rw [delivered_nothing h.info h.status hproc hfree hm replies
                  (booked_otherType (s := s.setLock o.playerId true) hgoods htype hm replies),
                delivered_nothing hinfo h.status hproc' rfl hm replies
                  (booked_otherType (s := s.initPaymentInfo.setLock o.playerId true) hgoods htype
                    hm replies)]
    · rw [delivered_other hm, delivered_other hm]

end Restored

/-! ## New orders -/

structure Numbered (s : Tables) : Prop where
  orders : ∀ r ∈ s.orderRows, s.Old r.orderId
  details : ∀ r ∈ s.detailRows, s.Old r.orderId

structure SameRows (s t : Tables) : Prop where
  orders : t.orderRows.map OrderRow.orderId = s.orderRows.map OrderRow.orderId
  details : t.detailRows = s.detailRows
  date : t.lastPayOrderDate = s.lastPayOrderDate
  index : t.lastPayOrderTodayIndex = s.lastPayOrderTodayIndex
  now : t.now = s.now

theorem SameRows.refl (s : Tables) : SameRows s s := ⟨rfl, rfl, rfl, rfl, rfl⟩

theorem SameRows.trans {s t u : Tables} (h : SameRows s t) (h' : SameRows t u) : SameRows s u :=
  ⟨h'.orders.trans h.orders, h'.details.trans h.details, h'.date.trans h.date,
    h'.index.trans h.index, h'.now.trans h.now⟩

theorem SameRows.numbered {s t : Tables} (h : SameRows s t) (hs : s.Numbered) : t.Numbered := by
  have hold (id : OrderId) (hid : s.Old id) : t.Old id := by
    rwa [Old, h.date, h.index, h.now]
  constructor
  · intro r hr
    have hmem := List.mem_map_of_mem (f := OrderRow.orderId) hr
    rw [h.orders] at hmem
    obtain ⟨r', hr', heq⟩ := List.mem_map.mp hmem
    rw [← heq]
    exact hold _ (hs.orders r' hr')
  · intro r hr
    rw [h.details] at hr
    exact hold _ (hs.details r hr)

theorem allows_sameRows : Allows SameRows where
  refl := .refl
  trans h h' := h.trans h'
  book _ _ _ _ := ⟨rfl, rfl, rfl, rfl, rfl⟩
  start _ _ _ := ⟨rfl, rfl, rfl, rfl, rfl⟩
  receiveBag _ _ _ := ⟨rfl, rfl, rfl, rfl, rfl⟩

theorem sameRows_setFields (s : Tables) (id : OrderId) (updates : List Update) :
    SameRows s (s.setFields id updates) := by
  unfold setFields
  split <;> exact ⟨rfl, rfl, rfl, rfl, rfl⟩

theorem sameRows_updateRow (s : Tables) (id : OrderId) (updates : List Update) :
    SameRows s (s.updateRow id updates) := by
  refine ⟨?_, rfl, rfl, rfl, rfl⟩
  simp only [updateRow, List.map_map]
  refine List.map_congr_left fun r _ => ?_
  simp only [Function.comp_apply]
  split <;> rfl

theorem sameRows_writeOrder (o : Order) (goods : Goods) (errcode : Option Nat) (m : Modify)
    (s : Tables) : (writeOrder o goods errcode m s).Within SameRows s := by
  have hset := sameRows_setFields s o.orderId (s.written o.orderId m)
  unfold writeOrder
  dsimp only
  split
  · exact hset
  · split
    · split
      · exact hset
      · next detail _ =>
        refine Prog.Within.of_step (R := SameRows) (fun h h' => h.trans h') hset
          (Prog.Within.bind (R := SameRows) (fun h h' => h.trans h')
            (allows_sameRows.deliver o goods detail _) fun _ t => ?_)
        have hrow := sameRows_updateRow t o.orderId (s.written o.orderId m)
        exact ⟨hrow.orders, hrow.details, hrow.date, hrow.index, hrow.now⟩
    · exact hset.trans (sameRows_updateRow _ o.orderId _)

theorem sameRows_modifyAndRecord (id : OrderId) (m : Modify) (s : Tables) :
    (modifyAndRecord id m s).Within SameRows s := by
  have hrun (o : Order) (procid : Nat) :
      ((modifyOrder o procid m (s.setLock o.playerId true)).xpcall.bind fun r s =>
        Prog.done (s.setLock o.playerId false) (Result.ofCall r)).Within SameRows s := by
    refine Prog.Within.bind (R := SameRows) (fun h h' => h.trans h')
      (Prog.Within.xpcall ?_) fun _ t => ⟨rfl, rfl, rfl, rfl, rfl⟩
    unfold modifyOrder
    split
    · exact ⟨rfl, rfl, rfl, rfl, rfl⟩
    · next goods hgoods =>
      refine Prog.Within.of_step (R := SameRows) (fun h h' => h.trans h')
        (t := s.setLock o.playerId true) ⟨rfl, rfl, rfl, rfl, rfl⟩
        (Prog.Within.bind (R := SameRows) (fun h h' => h.trans h') ?_
          fun r t => sameRows_writeOrder o goods r.1 r.2 t)
      unfold checkGiftBag
      split
      · refine ⟨.refl _, fun a t => ?_⟩
        cases a with
        | status result =>
            dsimp only
            split <;> exact SameRows.refl t
        | _ => exact SameRows.refl t
      · exact SameRows.refl _
  refine Prog.Within.bind (R := SameRows) (fun h h' => h.trans h') ?_
    fun _ t => ⟨rfl, rfl, rfl, rfl, rfl⟩
  unfold modifyPayOrder
  split
  · exact SameRows.refl s
  · next o hinfo =>
    repeat' split
    all_goals first
      | exact hrun o _
      | exact SameRows.refl s

theorem createPayOrder_ok {s t : Tables} {userId : PlayerId}
    {channelType sourceType : Option String}
    {goodsId : Nat} {convert : Option AssetType} {random : String} {id : OrderId}
    (h : s.createPayOrder userId channelType sourceType goodsId convert random = (.ok id, t)) :
    ∃ channel goods, ∃ u : Tables, s.shopingGoodsConfig goodsId = some goods ∧
      id = s.nextId random ∧
      u.orderRows = s.orderRows ∧ u.detailRows = s.detailRows ∧
      t = u.insertOrder (u.newOrder id userId channel sourceType goodsId goods convert)
        goods.assets := by
  unfold createPayOrder at h
  split at h
  · cases h
  · next channel _ =>
    split at h
    · cases h
    · next goods hgoods =>
      split at h
      · cases h
      split at h
      · cases h
      split at h
      · cases h
      · obtain ⟨hid, rfl⟩ := Prod.mk.inj h
        cases hid
        refine ⟨channel, goods, _, hgoods, rfl, ?_, ?_, rfl⟩ <;> rfl

theorem stored_insertOrder {s : Tables} {o : Order} {detail : List Asset}
    (hstatus : o.orderStatus = .init) (hnew : ∀ r ∈ s.orderRows, r.orderId ≠ o.orderId)
    (hnew' : ∀ r ∈ s.detailRows, r.orderId ≠ o.orderId) :
    Stored (s.insertOrder o detail) o.orderId o detail where
  info := by simp [insertOrder, insertDetail]
  orderId := rfl
  status := hstatus
  details := by simp [insertOrder, insertDetail]
  orderRows := by
    change (s.orderRows ++ [o.row]).filter _ = _
    have hnil : s.orderRows.filter (·.orderId = o.orderId) = [] := by
      simpa [List.filter_eq_nil_iff] using hnew
    rw [List.filter_append, hnil]
    simp [Order.row]
  detailRows := by
    change (s.detailRows ++ detail.map (detailRow o.orderId)).filter _ = _
    have hnil : s.detailRows.filter (·.orderId = o.orderId) = [] := by
      simpa [List.filter_eq_nil_iff] using hnew'
    rw [List.filter_append, hnil, List.nil_append, List.filter_eq_self]
    simp [detailRow]

theorem Numbered.createPayOrder {s : Tables} (h : s.Numbered) (userId : PlayerId)
    (channelType sourceType : Option String) (goodsId : Nat) (convert : Option AssetType)
    (random : String) :
    (s.createPayOrder userId channelType sourceType goodsId convert random).2.Numbered := by
  rcases s.createPayOrder_cases userId channelType sourceType goodsId convert random with
    ⟨code, heq⟩ | ⟨o, assets, hid, -, heq⟩
  · rw [heq]
    exact h
  · rw [heq]
    have hold {id : OrderId} (hid : s.Old id ∨ ∃ random, id = s.nextId random) :
        (({ s with
          playerOrderWaitTime := Function.update s.playerOrderWaitTime userId
            (some (s.now + s.createOrderWaitTime))
          lastPayOrderDate := some (serviceDay 0 s.now)
          lastPayOrderTodayIndex := s.nextIndex } : Tables).insertOrder o assets).Old id := by
      refine old_next (s := s) ?_ ?_ ?_ hid <;> rfl
    constructor
    · intro r hr
      rcases List.mem_append.mp hr with hr | hr
      · exact hold (.inl (h.orders r hr))
      · obtain rfl := List.mem_singleton.mp hr
        exact hold (.inr ⟨random, hid⟩)
    · intro r hr
      rcases List.mem_append.mp hr with hr | hr
      · exact hold (.inl (h.details r hr))
      · obtain ⟨a, -, rfl⟩ := List.mem_map.mp hr
        exact hold (.inr ⟨random, hid⟩)

theorem Numbered.clock {s : Tables} (h : s.Numbered) (seconds : Nat) :
    Numbered { s with now := s.now + seconds } := by
  have hold {id : OrderId} (hid : s.Old id) : Old { s with now := s.now + seconds } id := by
    obtain ⟨day, hday, hle, hlt⟩ := hid
    exact ⟨day, hday, hle.trans (serviceDay_mono 0 (by simp)), hlt⟩
  exact ⟨fun r hr => hold (h.orders r hr), fun r hr => hold (h.details r hr)⟩

theorem Numbered.reach {s : Tables} (h : s.Numbered) {w : World Tables Ask Answer Unit}
    (hw : Reach (World.step handle) (World.Admits (fun _ _ => True) (fun _ _ => True) fun _ => True)
      ⟨s, []⟩ w) : w.state.Numbered := by
  refine (World.kept_of_reach h (fun s e hs _ => ?_) hw).1
  cases e with
  | createPayOrder userId channelType sourceType goodsId convert random =>
      exact hs.createPayOrder userId channelType sourceType goodsId convert random
  | modifyPayOrder id m =>
      exact Prog.Within.keeps (R := SameRows) (fun _ _ hs h => h.numbered hs) hs
        (sameRows_modifyAndRecord id m s)
  | updateShopingConfig goods appstore config => exact ⟨hs.orders, hs.details⟩
  | clock seconds => exact hs.clock seconds

structure Untouched (id : OrderId) (s t : Tables) : Prop where
  info : t.paymentInfo id = s.paymentInfo id
  details : t.paymentInfoDetail id = s.paymentInfoDetail id
  orderRows : t.orderRows.filter (·.orderId = id) = s.orderRows.filter (·.orderId = id)
  detailRows : t.detailRows.filter (·.orderId = id) = s.detailRows.filter (·.orderId = id)

theorem Stored.later {s t : Tables} {id : OrderId} {o : Order} {detail : List Asset}
    (h : Stored s id o detail) (ht : Untouched id s t) : Stored t id o detail :=
  ⟨ht.info.trans h.info, h.orderId, h.status, ht.details.trans h.details,
    ht.orderRows.trans h.orderRows, ht.detailRows.trans h.detailRows⟩

end Tables

section Created

variable {s : Tables} {w : World Tables Ask Answer Unit} {userId : PlayerId}
  {channelType sourceType : Option String} {goodsId : Nat} {convert : Option AssetType}
  {random : String} {id : OrderId} {created t : Tables}

theorem stored_of_created (hs : s.Numbered)
    (hw : Reach (World.step handle) (World.Admits (fun _ _ => True) (fun _ _ => True) fun _ => True)
      ⟨s, []⟩ w)
    (hcreate : w.state.createPayOrder userId channelType sourceType goodsId convert random =
      (.ok id, created)) (ht : created.Untouched id t) :
    ∃ channel goods, ∃ u : Tables, w.state.shopingGoodsConfig goodsId = some goods ∧
      t.Stored id (u.newOrder id userId channel sourceType goodsId goods convert) goods.assets := by
  obtain ⟨channel, goods, u, hgoods, rfl, horders, hdetails, rfl⟩ :=
    Tables.createPayOrder_ok hcreate
  have hnumbered := hs.reach hw
  have hstored : (u.insertOrder
        (u.newOrder (w.state.nextId random) userId channel sourceType goodsId goods convert)
        goods.assets).Stored (w.state.nextId random)
      (u.newOrder (w.state.nextId random) userId channel sourceType goodsId goods convert)
      goods.assets := Tables.stored_insertOrder rfl
    (fun r hr heq => by
      rw [horders] at hr
      exact Tables.not_old_nextId random (heq ▸ hnumbered.orders r hr))
    fun r hr heq => by
      rw [hdetails] at hr
      exact Tables.not_old_nextId random (heq ▸ hnumbered.details r hr)
  exact ⟨channel, goods, u, hgoods, hstored.later ht⟩

/-- An order that any run has created delivers the same with and without a new start of the
service, whatever is asked and answered, if and only if it can be restored where it is asked for. -/
theorem order_survives_restart (hs : s.Numbered)
    (hw : Reach (World.step handle) (World.Admits (fun _ _ => True) (fun _ _ => True) fun _ => True)
      ⟨s, []⟩ w)
    (hcreate : w.state.createPayOrder userId channelType sourceType goodsId convert random =
      (.ok id, created)) (ht : created.Untouched id t)
    (hfree : t.modifyPayOrderPlayerLock userId = false) :
    ∃ o detail, t.paymentInfo id = some o ∧ t.paymentInfoDetail id = some detail ∧
      ((∀ m replies, t.delivered id m replies = t.initPaymentInfo.delivered id m replies) ↔
        t.Restorable o detail goodsId) := by
  obtain ⟨channel, goods, u, -, hstored⟩ := stored_of_created hs hw hcreate ht
  exact ⟨_, _, hstored.info, hstored.details, hstored.same_iff rfl hfree⟩

end Created

/-- `diamondShop` with one order. -/
def diamondOrder : Tables :=
  (diamondShop.createPayOrder "p" (some "alipay") none 1 none "a").2

/-- The diamonds are delivered after a new start. -/
theorem order_survives_restart_diamonds :
    diamondOrder.initPaymentInfo.delivered ⟨-1, 1, "a"⟩ { orderStatus := .complete }
        [.loaded .changed, .loaded .changed] =
      [("p", "diamond", some 600), ("p", "jing_bi", some 100)] := by
  have hnumbered : diamondShop.Numbered :=
    ⟨fun _ h => absurd h List.not_mem_nil, fun _ h => absurd h List.not_mem_nil⟩
  have hcreate : diamondShop.createPayOrder "p" (some "alipay") none 1 none "a" =
      (.ok ⟨-1, 1, "a"⟩, diamondOrder) := rfl
  have hrest : diamondOrder.Untouched ⟨-1, 1, "a"⟩ diamondOrder := ⟨rfl, rfl, rfl, rfl⟩
  obtain ⟨o, detail, ho, -, hiff⟩ := order_survives_restart hnumbered .refl hcreate hrest rfl
  cases ho
  rw [← hiff.mpr fun goods hgoods => ?_]
  · decide +kernel
  · refine ⟨fun _ convert cc hconv => ?_, fun hbag => ?_⟩
    · cases hconv
    · cases hgoods
      cases hbag

end JyQipai.Payment
