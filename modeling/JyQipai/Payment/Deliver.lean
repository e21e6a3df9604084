import JyQipai.Payment.Token

/-!
# An order is delivered once

The calls of `modify_pay_order` go from token to token, and give the lock back with a record
of what they have done.
-/

namespace JyQipai.Payment

open Lib Common AssetManage

variable {c known : Prop} {s t : Tables} {m : Multiset Token} {playerId : PlayerId} {id : OrderId}

section Owns

variable {fr : Multiset Token → Prop} {gains todo : List Gain} {gain : Gain}

theorem owns_changeAsset :
    (Tables.changeAsset id playerId gain s).xpcall.Owns (owning c)
      (fun r _ g => (∃ todo', g = {⟨playerId, id, .giving gains todo', known⟩}) ∧
        (r.isSome → g = {⟨playerId, id, .giving gains todo, known⟩}) ∧ (c → r = some true)) fr s
      {⟨playerId, id, .giving gains (gain :: todo), known⟩} := by
  refine ⟨_, turns_refl, trivial, fun a u ha _ => ?_⟩
  cases a with
  | changed => exact ⟨_, turns_book, ⟨todo, rfl⟩, fun _ => rfl, fun _ => rfl⟩
  | refused =>
      have hc : ¬c := fun hc => by cases ha hc
      exact ⟨_, turns_skip hc, ⟨todo, rfl⟩, fun _ => rfl, fun h => absurd h hc⟩
  | error added =>
      have hc : ¬c := fun hc => by cases ha hc
      cases added with
      | true => exact ⟨_, turns_book, ⟨todo, rfl⟩, fun _ => rfl, fun h => absurd h hc⟩
      | false =>
          exact ⟨_, turns_refl, ⟨gain :: todo, rfl⟩, nofun, fun h => absurd h hc⟩
  | _ =>
      have hc : ¬c := fun hc => by cases ha hc
      exact ⟨_, turns_refl, ⟨gain :: todo, rfl⟩, nofun, fun h => absurd h hc⟩

theorem owns_changeAll (strict : Bool) :
    (Tables.changeAll strict id playerId todo s).xpcall.Owns (owning c)
      (fun r _ g => ∃ todo', g = {⟨playerId, id, .giving gains todo', known⟩} ∧
        (c → r = some () ∧ todo' = [])) fr s {⟨playerId, id, .giving gains todo, known⟩} := by
  induction todo generalizing s fr with
  | nil => exact ⟨_, turns_refl, [], rfl, fun _ => ⟨rfl, rfl⟩⟩
  | cons gain todo ih =>
      refine Prog.Owns.xpcall_bind owns_changeAsset ?_ ?_
      · rintro t g ⟨⟨todo', hg⟩, -, hc⟩
        exact ⟨todo', hg, fun h => by cases hc h⟩
      · rintro fr ok t g - ⟨-, hg, hc⟩
        obtain rfl := hg rfl
        split
        · rename_i hraise
          exact ⟨_, turns_refl, todo, rfl, fun h => absurd (Option.some.inj (hc h)) hraise.2⟩
        · exact ih

def Given (c known : Prop) (o : Order) (gains : Option (List Gain)) (r : Option Unit)
    (g : Multiset Token) : Prop :=
  ∃ phase, g = {⟨o.playerId, o.orderId, phase, known⟩} ∧
    (c → known → r = some () ∧ ∃ l, gains = some l ∧ phase = .giving l [])

variable {o : Order} {goods : Goods} {detail : List Asset}

theorem owns_begun (strict : Bool) (htodo : todo.Sublist gains)
    (hall : c → known → todo = gains) :
    (Tables.changeAll strict o.orderId o.playerId todo (s.start o.orderId gains)).xpcall.Owns
      (owning c) (fun r _ g => Given c known o (some gains) r g) fr s
      {⟨o.playerId, o.orderId, .lost, known⟩} := by
  have hstart : (owning c).Turns fr s {⟨o.playerId, o.orderId, .lost, known⟩}
      (s.start o.orderId gains) {⟨o.playerId, o.orderId, .giving gains todo, known⟩} :=
    turns_start htodo hall
  refine Prog.Owns.of_turns hstart ((owns_changeAll strict).mono fun r t g hq => ?_)
  obtain ⟨todo', hg, hc⟩ := hq
  refine ⟨_, hg, fun h _ => ⟨(hc h).1, gains, rfl, ?_⟩⟩
  rw [(hc h).2]

theorem owns_completeShopOrder (hgoods : goods.shopType = .shop)
    (hc : c → known → s.deliverable o goods detail = true) :
    (Tables.completeShopOrder o detail s).xpcall.Owns (owning c)
      (fun r _ g => Given c known o (s.gainsOf o goods detail) r g) fr s
      {⟨o.playerId, o.orderId, .lost, known⟩} := by
  unfold Tables.completeShopOrder Tables.gainsOf
  unfold Tables.deliverable at hc
  simp only [hgoods] at hc ⊢
  cases hconv : s.converted o with
  | none =>
      simp only [hconv] at hc ⊢
      refine owns_begun false (List.filter_sublist.map _) fun h hknown => ?_
      rw [List.filter_eq_self.mpr (List.all_eq_true.mp (hc h hknown))]
  | some conv =>
      obtain ⟨convert, cc⟩ := conv
      simp only [hconv] at hc ⊢
      cases hrow : convertRow cc o.convertId with
      | none =>
          simp only [hrow] at hc ⊢
          exact ⟨_, turns_refl, .lost, rfl, fun h hknown => by cases hc h hknown⟩
      | some d =>
          simp only [hrow] at hc ⊢
          refine Prog.Owns.xpcall_bind (owns_begun false (List.Sublist.refl _) fun _ _ => rfl)
            ?_ ?_
          · rintro t g ⟨phase, hg, h⟩
            exact ⟨phase, hg, fun hh hknown => by cases (h hh hknown).1⟩
          · rintro fr ⟨⟩ t g - hq
            cases hgift : d.giftAssetType with
            | some types => exact ⟨g, turns_refl, hq⟩
            | none =>
                obtain ⟨phase, hg, -⟩ := hq
                refine ⟨g, turns_refl, phase, hg, fun h hknown => ?_⟩
                have hsome := hc h hknown
                rw [Option.bind_some, hgift] at hsome
                cases hsome

theorem owns_completeGiftBagOrder :
    (Tables.completeGiftBagOrder o detail s).xpcall.Owns (owning c)
      (fun r _ g => Given c known o (some (detail.map (Asset.bagGain o.productId))) r g) fr s
      {⟨o.playerId, o.orderId, .lost, known⟩} := by
  refine Prog.Owns.xpcall_bind (owns_begun true (List.Sublist.refl _) fun _ _ => rfl) ?_ ?_
  · rintro t g ⟨phase, hg, h⟩
    exact ⟨phase, hg, fun hh hknown => by cases (h hh hknown).1⟩
  · rintro fr ⟨⟩ t g - hq
    refine ⟨g, turns_receiveBag, trivial, fun a u ha _ => ?_⟩
    obtain ⟨phase, hg, h⟩ := hq
    cases a with
    | bought => exact ⟨g, turns_refl, phase, hg, h⟩
    | _ => exact ⟨g, turns_refl, phase, hg, fun hh _ => by cases ha hh⟩

theorem owns_deliver (hc : c → known → s.deliverable o goods detail = true) :
    (Tables.deliver o goods detail s).xpcall.Owns (owning c)
      (fun r _ g => Given c known o (s.gainsOf o goods detail) r g) fr s
      {⟨o.playerId, o.orderId, .lost, known⟩} := by
  unfold Tables.deliver
  cases hgoods : goods.shopType with
  | shop => exact owns_completeShopOrder hgoods hc
  | giftBag =>
      have hgains : s.gainsOf o goods detail = some (detail.map (Asset.bagGain o.productId)) := by
        unfold Tables.gainsOf
        rw [hgoods]
      rw [hgains]
      exact owns_completeGiftBagOrder
  | other name =>
      refine ⟨_, turns_refl, .lost, rfl, fun h hknown => ?_⟩
      have hfalse := hc h hknown
      rw [Tables.deliverable, hgoods] at hfalse
      cases hfalse

def Ended (asked : OrderStatus) (assets : Option (List Gain)) (r : Option (Option Nat)) :
    Phase → Prop
  | .pending _ => asked = .complete → ∃ code, r = some (some code)
  | .lost => False
  | .giving gains todo => todo = [] ∧ assets = some gains ∧ r = some none

def Over (c known : Prop) (o : Order) (asked : OrderStatus) (assets : Option (List Gain))
    (r : Option (Option Nat)) (g : Multiset Token) : Prop :=
  ∃ phase known', g = {⟨o.playerId, o.orderId, phase, known'⟩} ∧ (known' → known) ∧
    (c → known' → Ended asked assets r phase)

variable {asked : OrderStatus} {assets : Option (List Gain)} {mod : Modify}
  {stored : Option (List Asset)}

theorem owns_writeOrder {errcode : Option Nat}
    (hpending : mod.orderStatus ≠ .complete → asked = .complete → ∃ code, errcode = some code)
    (hcomplete : c → mod.orderStatus = .complete → errcode = none ∧ ∃ detail,
      stored = some detail ∧ s.deliverable o goods detail = true ∧
        assets = s.gainsOf o goods detail) :
    (Tables.writeOrder o goods errcode mod s).xpcall.Owns (owning c)
      (fun r _ g => Over c known o asked assets r g) fr s
      {⟨o.playerId, o.orderId, .pending stored, known⟩} := by
  unfold Tables.writeOrder
  dsimp only
  have hset : (owning c).Turns fr s {⟨o.playerId, o.orderId, .pending stored, known⟩}
      (s.setFields o.orderId (s.written o.orderId mod))
      {⟨o.playerId, o.orderId, .written stored mod.orderStatus,
        known ∧ s.paymentInfoDetail o.orderId = stored⟩} := turns_setFields mod
  have hapart : Apart o.orderId s (s.setFields o.orderId (s.written o.orderId mod)) :=
    apart_setFields _
  by_cases hstatus : mod.orderStatus = .complete
  · have hne : s.written o.orderId mod ≠ [] := by
      rw [Tables.written, if_pos hstatus]
      simp
    rw [Phase.written, if_pos hstatus] at hset
    rw [if_neg hne, if_pos hstatus]
    refine Prog.Owns.of_turns hset ?_
    cases hdetail : (s.setFields o.orderId (s.written o.orderId mod)).paymentInfoDetail
        o.orderId with
    | none =>
        refine ⟨_, turns_refl, .lost, _, rfl, And.left, fun h hknown => ?_⟩
        obtain ⟨-, detail, hstored, -⟩ := hcomplete h hstatus
        rw [hapart.detail, hknown.2, hstored] at hdetail
        cases hdetail
    | some detail =>
        rw [hapart.detail] at hdetail
        have hsame (h : c) (hknown : s.paymentInfoDetail o.orderId = stored) :
            s.deliverable o goods detail = true ∧ assets = s.gainsOf o goods detail := by
          obtain ⟨-, detail', hstored, hdel⟩ := hcomplete h hstatus
          rw [hknown, hstored] at hdetail
          obtain rfl := Option.some.inj hdetail
          exact hdel
        have hsetFields : (s.setFields o.orderId (s.written o.orderId mod)).shopingConfig =
            s.shopingConfig := by
          unfold Tables.setFields
          split <;> rfl
        have hdeliverable : (s.setFields o.orderId (s.written o.orderId mod)).deliverable o
            goods detail = s.deliverable o goods detail := by
          unfold Tables.deliverable Tables.converted
          rw [hsetFields]
        have hgains : (s.setFields o.orderId (s.written o.orderId mod)).gainsOf o goods detail =
            s.gainsOf o goods detail := by
          unfold Tables.gainsOf Tables.converted
          rw [hsetFields]
        refine Prog.Owns.xpcall_bind (owns_deliver fun h hknown => ?_) ?_ ?_
        · rw [hdeliverable]
          exact (hsame h hknown.2).1
        · rintro t g ⟨phase, hg, h⟩
          exact ⟨phase, _, hg, And.left, fun hh hknown => by cases (h hh hknown).1⟩
        · rintro fr ⟨⟩ t g - ⟨phase, hg, h⟩
          refine ⟨g, turns_updateRow _ _, phase, _, hg, And.left, fun hh hknown => ?_⟩
          obtain ⟨-, l, hl, rfl⟩ := h hh hknown
          refine ⟨rfl, ?_, congrArg some (hcomplete hh hstatus).1⟩
          rw [(hsame hh hknown.2).2, ← hgains, hl]
  · rw [Phase.written, if_neg hstatus] at hset
    split
    · exact ⟨_, hset, _, _, rfl, And.left, fun _ _ _ => ⟨1010, rfl⟩⟩
    · refine ⟨_, hset.trans (turns_updateRow (s.written o.orderId mod) _), _, _, rfl,
        And.left, fun _ _ hasked => ?_⟩
      obtain ⟨code, rfl⟩ := hpending hstatus hasked
      exact ⟨code, rfl⟩

theorem owns_checkGiftBag {tokens : Multiset Token} :
    (Tables.checkGiftBag o goods mod s).xpcall.Owns (owning c)
      (fun r t g => g = tokens ∧ (r = none → ¬c) ∧ (goods.shopType ≠ .giftBag → t = s) ∧
        ∀ e ∈ r, e = (none, mod) ∨ ∃ n mod', e = (some n, mod') ∧ mod'.orderStatus = .error) fr s
      tokens := by
  unfold Tables.checkGiftBag
  split
  · rename_i hbag
    refine ⟨_, turns_refl, trivial, fun a u ha _ => ?_⟩
    dsimp only
    split
    · rename_i result
      split <;> refine ⟨_, turns_refl, rfl, nofun, fun h => absurd hbag.1 h, fun e he => ?_⟩
      · obtain rfl := Option.some.inj he
        exact .inr ⟨result, _, rfl, rfl⟩
      · exact .inl (Option.some.inj he).symm
    · rename_i hother
      refine ⟨_, turns_refl, rfl, fun _ hc => ?_, fun h => absurd hbag.1 h, nofun⟩
      obtain ⟨result, h⟩ := ha hc
      exact hother result h
  · refine ⟨_, turns_refl, rfl, nofun, fun _ => rfl, fun e he => ?_⟩
    exact .inl (Option.some.inj he).symm

theorem owns_modifyOrder {procid : Nat}
    (hcareful : c → mod.orderStatus = .complete → ∀ goods ∈ s.shopingGoodsConfig procid,
      ∃ detail, stored = some detail ∧ s.deliverable o goods detail = true ∧
        assets = s.gainsOf o goods detail) :
    (Tables.modifyOrder o procid mod s).xpcall.Owns (owning c)
      (fun r _ g => Over c known o mod.orderStatus assets r g) fr s
      {⟨o.playerId, o.orderId, .pending stored, known⟩} := by
  unfold Tables.modifyOrder
  cases hgoods : s.shopingGoodsConfig procid with
  | none => exact ⟨_, turns_refl, _, _, rfl, fun h => h, fun _ _ _ => ⟨1002, rfl⟩⟩
  | some goods =>
      refine Prog.Owns.xpcall_bind owns_checkGiftBag ?_ ?_
      · rintro t g ⟨hg, hc, -⟩
        exact ⟨_, _, hg, fun h => h, fun h => absurd h (hc rfl)⟩
      · rintro fr e t g - ⟨rfl, -, hsame, he⟩
        rcases he e rfl with rfl | ⟨n, mod', rfl, hmod'⟩
        · refine owns_writeOrder (fun h h' => absurd h' h) fun h hstatus => ⟨rfl, ?_⟩
          obtain ⟨detail, hstored, hdel, hassets⟩ := hcareful h hstatus goods hgoods
          refine ⟨detail, hstored, ?_⟩
          by_cases hbag : goods.shopType = .giftBag
          · simp only [Tables.deliverable, Tables.gainsOf, hbag] at hassets ⊢
            exact ⟨trivial, hassets⟩
          · rw [hsame hbag]
            exact ⟨hdel, hassets⟩
        · refine owns_writeOrder (fun _ _ => ⟨n, rfl⟩) fun _ h => ?_
          rw [hmod'] at h
          cases h

end Owns

section Record

variable {fr : Multiset Token → Prop} {o : Order} {asked : OrderStatus}
  {assets : Option (List Gain)} {r : Option (Option Nat)} {phase : Phase}

theorem statusOf_eq (hinfo : s.paymentInfo id = some o) : s.statusOf id = some o.orderStatus := by
  rw [Tables.statusOf, hinfo]
  rfl

theorem addedOf_eq_none (h : id ∉ s.begun.map Prod.fst) : s.addedOf id = none := if_neg h

theorem good_of_ended {before : Option OrderStatus}
    (h : Held c s ({⟨playerId, id, phase, known⟩} + m)) (hc : c)
    (hended : Ended asked assets r phase) :
    Return.Good ⟨id, asked, before, assets, Result.ofCall r, s.addedOf id, s.statusOf id⟩ := by
  obtain ⟨-, o, hinfo, -, hfits⟩ := h.token
  intro _
  cases phase with
  | pending stored =>
      have hadded := addedOf_eq_none (h.unbegun_of_status hinfo hfits.1)
      refine ⟨fun hasked => ?_, fun _ hafter => hfits.1 ?_⟩
      · obtain ⟨code, rfl⟩ := hended hasked
        dsimp only
        rw [hadded]
        refine ⟨nofun, fun ⟨hsome, hnone⟩ => ?_⟩
        rw [← hnone] at hsome
        cases hsome
      · exact Option.some.inj ((statusOf_eq hinfo).symm.trans hafter)
  | lost => cases hended
  | giving gains todo =>
      obtain ⟨rfl, rfl, rfl⟩ := hended
      obtain ⟨-, hmem, -, hall⟩ := hfits
      have hadded : s.addedOf id = some gains := by
        rw [Tables.addedOf, if_pos (mem_keys_iff.mpr ⟨gains, hmem⟩), ← hall hc, List.append_nil]
      refine ⟨fun _ => ⟨fun _ => ⟨rfl, hadded⟩, fun _ => rfl⟩, fun hfail => ?_⟩
      rcases hfail with hfail | hfail <;> cases hfail

theorem turns_release {before : Option OrderStatus} {x : OrderId} (hid : known → id = x)
    (hended : c → known → Ended asked assets r phase) :
    (owning c).Turns fr s {⟨playerId, id, phase, known⟩}
      ((s.setLock playerId false).record
        ⟨x, asked, before, assets, Result.ofCall r, s.addedOf x, s.statusOf x⟩) 0 := by
  refine ⟨trivial, fun f _ h => ?_⟩
  obtain rfl := hid h.token.1
  rw [zero_add]
  have hmem (token : Token) (ht : token ∈ f) : token ∈ {⟨playerId, id, phase, known⟩} + f := by
    simp [ht]
  have hnodup := h.nodup
  rw [Multiset.singleton_add, Multiset.map_cons, Multiset.nodup_cons] at hnodup
  refine ⟨fun player => ?_, hnodup.2, fun token ht => ?_, h.once, h.part, h.unbegun, h.complete,
    h.ids, fun hc ret hret => ?_⟩
  · change Function.update s.modifyPayOrderPlayerLock playerId false player = true ↔ _
    by_cases hp : player = playerId
    · subst hp
      rw [Function.update_self]
      exact ⟨nofun, fun hmem => absurd hmem hnodup.1⟩
    · rw [Function.update_of_ne hp, h.lock player]
      simp [hp]
  · obtain ⟨hknown, o, hinfo, hplayer, hphase⟩ := h.fits token (hmem token ht)
    refine ⟨hknown, o, hinfo, hplayer, ?_⟩
    cases hph : token.phase with
    | _ =>
        rw [hph] at hphase
        exact hphase
  · rcases List.mem_append.mp hret with hret | hret
    · exact h.good hc ret hret
    · obtain rfl := List.mem_singleton.mp hret
      exact good_of_ended h hc (hended hc h.token.1)

theorem turns_refused {result : Result} (hresult : result.succ = false) :
    (owning c).Turns fr s 0
      (s.record ⟨id, asked, s.statusOf id, assets, result, s.addedOf id, s.statusOf id⟩) 0 := by
  refine ⟨trivial, fun f _ h => ?_⟩
  rw [zero_add] at h ⊢
  refine ⟨h.lock, h.nodup, h.fits, h.once, h.part, h.unbegun, h.complete, h.ids,
    fun hc ret hret => ?_⟩
  rcases List.mem_append.mp hret with hret | hret
  · exact h.good hc ret hret
  · obtain rfl := List.mem_singleton.mp hret
    intro hbefore
    have hnot : id ∉ s.begun.map Prod.fst := fun hmem => hbefore (h.complete id hmem)
    refine ⟨fun _ => ?_, fun _ => hbefore⟩
    dsimp only
    rw [hresult, addedOf_eq_none hnot]
    refine ⟨nofun, fun ⟨hsome, hnone⟩ => ?_⟩
    rw [← hnone] at hsome
    cases hsome

theorem owns_modifyAndRecord (mod : Modify)
    (hcareful : c → CarefulCall s (.modifyPayOrder id mod)) :
    (s.modifyAndRecord id mod).Owns (owning c) (fun _ _ g => g = 0) fr s 0 := by
  unfold Tables.modifyAndRecord Tables.modifyPayOrder
  dsimp only
  have hrefused {result : Result} (hresult : result.succ = false) :
      (Prog.bind (.done s result : Prog Tables Ask Answer Result) fun result s' =>
        .done (s'.record ⟨id, mod.orderStatus, s.statusOf id, s.assetsOf id, result,
          s'.addedOf id, s'.statusOf id⟩) ()).Owns (owning c) (fun _ _ g => g = 0) fr s 0 :=
    ⟨0, turns_refused hresult, rfl⟩
  cases hinfo : s.paymentInfo id with
  | none => exact hrefused rfl
  | some o =>
      dsimp only
      split
      · exact hrefused rfl
      split
      · exact hrefused rfl
      split
      · exact hrefused rfl
      cases hproc : o.productId.toNumber with
      | none => exact hrefused rfl
      | some procid =>
          dsimp only
          split
          · exact hrefused rfl
          · rename_i hstatus _ _ hlock
            have hfree : s.modifyPayOrderPlayerLock o.playerId = false := by simpa using hlock
            have hturns : (owning c).Turns fr s 0 (s.setLock o.playerId true)
                {⟨o.playerId, o.orderId, .pending (s.paymentInfoDetail id), o.orderId = id⟩} :=
              turns_lock hinfo hstatus hfree
            refine Prog.Owns.of_turns hturns ?_
            have howns : (Tables.modifyOrder o procid mod (s.setLock o.playerId true)).xpcall.Owns
                (owning c)
                (fun r _ g => Over c (o.orderId = id) o mod.orderStatus (s.assetsOf id) r g) fr
                (s.setLock o.playerId true) {⟨o.playerId, o.orderId,
                  .pending (s.paymentInfoDetail id), o.orderId = id⟩} :=
              owns_modifyOrder fun h hmod goods hgoods => ?_
            · refine Prog.Owns.bind_bind (howns.bind fun fr r t g _ hr => ?_)
              obtain ⟨phase, known, rfl, hid, hended⟩ := hr
              exact ⟨0, turns_release hid hended, rfl⟩
            · obtain ⟨detail, hdetail, hdel⟩ :=
                hcareful h hmod o hinfo hstatus hfree procid hproc goods hgoods
              refine ⟨detail, hdetail, hdel, ?_⟩
              rw [Tables.assetsOf, hinfo, Option.bind_some, hproc, Option.bind_some]
              have hgoods' : s.shopingGoodsConfig procid = some goods := hgoods
              rw [hgoods', Option.bind_some, hdetail, Option.bind_some]
              rfl

end Record

/-! ## Runs -/

theorem Held.insertOrder (h : Held c s m) {o : Order} {random : String}
    (hid : o.orderId = s.nextId random) (assets : List Asset) (wait : PlayerId → Option Int) :
    Held c ({ s with
      playerOrderWaitTime := wait
      lastPayOrderDate := some (serviceDay 0 s.now)
      lastPayOrderTodayIndex := s.nextIndex }.insertOrder o assets) m := by
  have hnew (x : OrderId) (hx : s.Old x) : x ≠ o.orderId := by
    rintro rfl
    rw [hid] at hx
    exact Tables.not_old_nextId random hx
  have hinfo (x : OrderId) (hx : x ≠ o.orderId) :
      Function.update s.paymentInfo o.orderId (some o) x = s.paymentInfo x :=
    Function.update_of_ne hx _ _
  refine ⟨h.lock, h.nodup, fun token ht => ?_, h.once, h.part, h.unbegun, fun x hx => ?_,
    fun x o' ho' => ?_, h.good⟩
  · obtain ⟨hknown, o', ho', hplayer, hphase⟩ := h.fits token ht
    have hne := hnew _ (h.ids _ _ ho').2
    refine ⟨hknown, o', (hinfo _ hne).trans ho', hplayer, ?_⟩
    cases hph : token.phase with
    | pending detail =>
        rw [hph] at hphase
        exact ⟨hphase.1, (Function.update_of_ne hne _ _).trans hphase.2⟩
    | _ =>
        rw [hph] at hphase
        exact hphase
  · have hstatus := h.complete x hx
    obtain ⟨o', ho', -⟩ := Option.map_eq_some_iff.mp hstatus
    rw [← hstatus]
    exact congrArg (Option.map fun o => o.orderStatus) (hinfo x (hnew x (h.ids x o' ho').2))
  · by_cases hx : x = o.orderId
    · subst hx
      have hsome : some o = some o' := by
        rw [← ho']
        exact (Function.update_self o.orderId (some o) s.paymentInfo).symm
      obtain rfl := Option.some.inj hsome
      refine ⟨rfl, Tables.old_next (s := s) ?_ ?_ ?_ (.inr ⟨random, hid⟩)⟩ <;> rfl
    · have hold := h.ids x o' ((hinfo x hx).symm.trans ho')
      refine ⟨hold.1, Tables.old_next (s := s) ?_ ?_ ?_ (.inl hold.2)⟩ <;> rfl

theorem owns_handle (e : Event) (hcareful : c → CarefulCall s e) :
    (handle e s).Owns (owning c) (fun _ _ g => g = 0) (fun _ => True) s 0 := by
  cases e with
  | createPayOrder userId channelType sourceType goodsId convert random =>
      refine ⟨0, ⟨trivial, fun f _ h => ?_⟩, rfl⟩
      rcases s.createPayOrder_cases userId channelType sourceType goodsId convert random with
        ⟨code, heq⟩ | ⟨o, assets, hid, -, heq⟩
      · rw [heq]
        exact h
      · rw [heq]
        exact Held.insertOrder h hid assets _
  | modifyPayOrder id mod => exact owns_modifyAndRecord mod hcareful
  | updateShopingConfig goods appstore config =>
      exact ⟨0, ⟨trivial, fun f _ h => ⟨h.lock, h.nodup, h.fits, h.once, h.part, h.unbegun,
        h.complete, h.ids, h.good⟩⟩, rfl⟩
  | clock seconds =>
      refine ⟨0, ⟨trivial, fun f _ h => ⟨h.lock, h.nodup, h.fits, h.once, h.part, h.unbegun,
        h.complete, fun x o ho => ⟨(h.ids x o ho).1, ?_⟩, h.good⟩⟩, rfl⟩
      obtain ⟨day, hday, hle, hlt⟩ := (h.ids x o ho).2
      exact ⟨day, hday, hle.trans (serviceDay_mono 0 (by simp)), hlt⟩

theorem held_of_started (hs : s.Started) : Held c s 0 where
  lock playerId := by simp [hs.unlocked]
  nodup := by simp
  fits := by simp
  once := by simp [hs.begun]
  part := by simp [hs.begun]
  unbegun id _ := by simp [Tables.bookedOf, hs.booked]
  complete := by simp [hs.begun]
  ids := hs.ids
  good _ := by simp [hs.returned]

theorem owned_of_reach (hs : s.Started) {allowed : World Tables Ask Answer Unit →
      Input Event Answer → Prop}
    (hallowed : c → ∀ w i, allowed w i → w.Admits Careful CarefulCall (fun _ => True) i)
    {w : World Tables Ask Answer Unit}
    (h : Reach (World.step handle) allowed ⟨s, []⟩ w) : World.Owned (owning c) w := by
  refine Reach.invariant ⟨trivial, [], held_of_started hs, .nil⟩ (fun w i hw hi => ?_) h
  have hadmits : w.Admits (owning c).valid (fun s e => c → CarefulCall s e) (fun _ => True) i := by
    cases i with
    | command e => exact fun hc => hallowed hc w _ hi
    | answer i a => exact ⟨trivial, fun x hx hc => (hallowed hc w _ hi).2 x hx⟩
  exact hw.step (fun s e _ hok => owns_handle e hok) hadmits fun _ _ _ _ _ _ _ _ _ _ => trivial

/-- In every run no order is delivered twice.  If the assets are added and no call raises an
error, and if the orders that are to be completed can be delivered, then every call returns
what it has done, and leaves no order complete that it has not delivered. -/
theorem delivered_once_on_success {s : Tables} (hs : s.Started) :
    (∀ w, Reach (World.step handle) (fun _ _ => True) ⟨s, []⟩ w → w.state.DeliveredOnce) ∧
      ∀ w, Reach (World.step handle) (World.Admits Careful CarefulCall fun _ => True) ⟨s, []⟩ w →
        ∀ r ∈ w.state.returned, r.Good := by
  constructor
  · intro w h
    obtain ⟨-, gs, hheld, -⟩ := owned_of_reach (c := False) hs (fun hc => hc.elim) h
    refine ⟨hheld.once, fun id => ?_⟩
    by_cases hid : id ∈ w.state.begun.map Prod.fst
    · obtain ⟨gains, hmem⟩ := mem_keys_iff.mp hid
      exact .inr ⟨gains, hmem, hheld.part _ hmem⟩
    · exact .inl (hheld.unbegun id hid)
  · intro w h r hr
    obtain ⟨-, gs, hheld, -⟩ := owned_of_reach (c := True) hs (fun _ _ _ h => h) h
    exact hheld.good trivial r hr

def diamondShop : Tables where
  shopingGoodsConfig n :=
    if n = 1 then
      some { id := 1, shopType := .shop, price := 600, assets :=
        [{ assetType := "diamond", assetCount := 600 },
          { assetType := "jing_bi", assetCount := 100, goodsType := .gift }] }
    else none

theorem started_diamondShop : diamondShop.Started :=
  ⟨fun _ => rfl, rfl, rfl, rfl, fun _ _ h => by cases h⟩

/-- An order is created and completed; the changes of the assets are answered by `a`. -/
def paid (a : Answer) : List (Input Event Answer) :=
  [.command (.createPayOrder "p" (some "alipay") none 1 none "a"),
    .command (.modifyPayOrder ⟨-1, 1, "a"⟩ { orderStatus := .complete }),
    .answer 0 a, .answer 0 a]

theorem delivered_once_paid :
    (∃ r ∈ (run (World.step handle) ⟨diamondShop, []⟩ (paid .changed)).state.returned,
      r.result.succ = true ∧
        r.added = some [⟨"diamond", some 600, .buy⟩, ⟨"jing_bi", some 100, .buyGift⟩]) ∧
      (run (World.step handle) ⟨diamondShop, []⟩ (paid .changed)).state.DeliveredOnce ∧
      ∀ r ∈ (run (World.step handle) ⟨diamondShop, []⟩ (paid .changed)).state.returned,
        r.Good := by
  have hall := delivered_once_on_success started_diamondShop
  exact ⟨by decide +kernel, hall.1 _ (reach_run (by decide +kernel)),
    hall.2 _ (reach_run (by decide +kernel))⟩

/-- `change_asset` refuses, since the player cannot be loaded; the call returns `true`, and
the order is complete with nothing added. -/
theorem refused_change_returns_true :
    ¬∀ s : Tables, s.Started → ∀ w,
      Reach (World.step handle) (fun _ _ => True) ⟨s, []⟩ w →
        w.state.DeliveredOnce ∧ ∀ r ∈ w.state.returned, r.Good := by
  intro h
  have hreach : Reach (World.step handle) (fun _ _ => True) ⟨diamondShop, []⟩
      (run (World.step handle) ⟨diamondShop, []⟩ (paid .refused)) := reach_run (by decide +kernel)
  have hrun := (h diamondShop started_diamondShop _ hreach).2
  revert hrun
  decide +kernel

end JyQipai.Payment
