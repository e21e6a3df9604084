import JyQipai.Payment.Complete
import JyQipai.Lib.Owned

/-!
# Calls that hold the lock of a player

An order is to be delivered once, and only by a call that succeeds.  The lock of a player
belongs to the one call that modifies an order of the player.  A `Token` says how far that
call has come: before the status is written, behind it, or with a delivery that was started.
-/

namespace JyQipai.Payment

open Lib Common AssetManage

/-! ## The property -/

structure Tables.DeliveredOnce (s : Tables) : Prop where
  once : (s.begun.map Prod.fst).Nodup
  part : ∀ id, s.bookedOf id = [] ∨ ∃ gains, (id, gains) ∈ s.begun ∧ (s.bookedOf id).Sublist gains

/-- The call has found an order that was not complete.  If it was to complete it, then it has
returned `true` just in case all assets were added; if it has returned `false` or an error
was raised, the order is not complete. -/
def Return.Good (r : Return) : Prop :=
  r.before ≠ some .complete →
    (r.asked = .complete → (r.result.succ = true ↔ r.assets.isSome ∧ r.added = r.assets)) ∧
      (r.result.succ = false ∨ r.result.ok = false → r.after ≠ some .complete)

instance (r : Return) : Decidable r.Good := by
  unfold Return.Good
  infer_instance

/-- Every change of an asset succeeds, and no call raises an error. -/
def Careful : Ask → Answer → Prop
  | .changeAsset .., a => a = .changed
  | .queryPlayerGiftBagStatus .., a => ∃ result, a = .status result
  | .playerBuyGiftBag .., a => a = .bought

instance decidableCareful (q : Ask) (a : Answer) : Decidable (Careful q a) := by
  cases q with
  | changeAsset => exact inferInstanceAs (Decidable (a = .changed))
  | queryPlayerGiftBagStatus =>
      cases a with
      | status result => exact .isTrue ⟨result, rfl⟩
      | _ => exact .isFalse fun h => by obtain ⟨_, h⟩ := h; cases h
  | playerBuyGiftBag => exact inferInstanceAs (Decidable (a = .bought))

def Tables.deliverable (s : Tables) (o : Order) (goods : Goods) (detail : List Asset) : Bool :=
  match goods.shopType with
  | .shop =>
      match s.converted o with
      | some (_, cc) => ((convertRow cc o.convertId).bind ConvertGoods.giftAssetType).isSome
      | none => detail.all fun a => isAsset a.assetType
  | .giftBag => true
  | .other _ => false

/-- A call that is to complete an order and is not refused finds its details and can deliver
its goods. -/
def CarefulCall (s : Tables) : Event → Prop
  | .modifyPayOrder id m => m.orderStatus = .complete → ∀ o ∈ s.paymentInfo id,
      o.orderStatus ≠ .complete → s.modifyPayOrderPlayerLock o.playerId = false →
        ∀ procid ∈ o.productId.toNumber, ∀ goods ∈ s.shopingGoodsConfig procid,
          ∃ detail ∈ s.paymentInfoDetail id, s.deliverable o goods detail
  | _ => True

instance decidableCarefulCall (s : Tables) : ∀ e, Decidable (CarefulCall s e) := by
  rintro (_ | _) <;> unfold CarefulCall <;> infer_instance

structure Tables.Started (s : Tables) : Prop where
  unlocked : ∀ playerId, s.modifyPayOrderPlayerLock playerId = false
  booked : s.booked = []
  begun : s.begun = []
  returned : s.returned = []
  ids : ∀ id o, s.paymentInfo id = some o → o.orderId = id ∧ s.Old id

/-! ## Tokens -/

/-- How far the call has come that holds the lock: the order is as it was, or it is complete,
without a delivery or with one that is to add `todo`. -/
inductive Phase where
  | pending (detail : Option (List Asset))
  | lost
  | giving (gains todo : List Gain)

/-- `known` is what the call has seen before. -/
structure Token where
  playerId : PlayerId
  orderId : OrderId
  phase : Phase
  known : Prop

def Phase.Fits (c : Prop) (s : Tables) (id : OrderId) : Phase → OrderStatus → Prop
  | .pending detail, status => status ≠ .complete ∧ s.paymentInfoDetail id = detail
  | .lost, status => status = .complete ∧ id ∉ s.begun.map Prod.fst
  | .giving gains todo, status => status = .complete ∧ (id, gains) ∈ s.begun ∧
      (s.bookedOf id ++ todo).Sublist gains ∧ (c → s.bookedOf id ++ todo = gains)

def Token.Fits (c : Prop) (s : Tables) (t : Token) : Prop :=
  t.known ∧ ∃ o, s.paymentInfo t.orderId = some o ∧ o.playerId = t.playerId ∧
    t.phase.Fits c s t.orderId o.orderStatus

/-- The tokens of the calls that wait; `c` says that all answers were careful. -/
structure Held (c : Prop) (s : Tables) (m : Multiset Token) : Prop where
  lock : ∀ playerId, s.modifyPayOrderPlayerLock playerId = true ↔
    playerId ∈ m.map Token.playerId
  nodup : (m.map Token.playerId).Nodup
  fits : ∀ t ∈ m, t.Fits c s
  once : (s.begun.map Prod.fst).Nodup
  part : ∀ x ∈ s.begun, (s.bookedOf x.1).Sublist x.2
  unbegun : ∀ id, id ∉ s.begun.map Prod.fst → s.bookedOf id = []
  complete : ∀ id ∈ s.begun.map Prod.fst, s.statusOf id = some .complete
  ids : ∀ id o, s.paymentInfo id = some o → o.orderId = id ∧ s.Old id
  good : c → ∀ r ∈ s.returned, r.Good

def owning (c : Prop) : Owning Tables Ask Answer (Multiset Token) where
  valid q a := c → Careful q a
  keeps _ := True
  holds := Held c
  may _ _ := True
  frame _ _ _ _ := True

variable {c known : Prop} {s t : Tables} {m : Multiset Token} {playerId : PlayerId} {id : OrderId}

namespace Tables

theorem bookedOf_append (l : List Booking) (b : Booking) :
    ({ s with booked := l ++ [b] } : Tables).bookedOf id =
      ({ s with booked := l } : Tables).bookedOf id ++
        if b.orderId = id then [b.gain] else [] := by
  unfold bookedOf
  rw [List.filter_append, List.map_append]
  congr 1
  by_cases h : b.orderId = id
  · rw [if_pos h, List.filter_cons_of_pos (by simpa using h)]
    rfl
  · rw [if_neg h, List.filter_cons_of_neg (by simpa using h)]
    rfl

theorem bookedOf_book (gain : Gain) (x : OrderId) :
    (s.book id playerId gain).bookedOf x =
      s.bookedOf x ++ if id = x then [gain] else [] :=
  bookedOf_append s.booked ⟨id, playerId, gain⟩

end Tables

/-- Only the order `id` is touched. -/
structure Apart (id : OrderId) (s t : Tables) : Prop where
  lock : t.modifyPayOrderPlayerLock = s.modifyPayOrderPlayerLock
  info : ∀ x, x ≠ id → t.paymentInfo x = s.paymentInfo x
  ids : ∀ o, t.paymentInfo id = some o → ∃ o', s.paymentInfo id = some o' ∧ o.orderId = o'.orderId
  detail : t.paymentInfoDetail = s.paymentInfoDetail
  begun : ∀ x : OrderId × List Gain, x.1 ≠ id → (x ∈ t.begun ↔ x ∈ s.begun)
  booked : ∀ x, x ≠ id → t.bookedOf x = s.bookedOf x
  date : t.lastPayOrderDate = s.lastPayOrderDate
  index : t.lastPayOrderTodayIndex = s.lastPayOrderTodayIndex
  now : t.now = s.now
  returned : t.returned = s.returned

theorem mem_keys_iff {x : OrderId} {l : List (OrderId × List Gain)} :
    x ∈ l.map Prod.fst ↔ ∃ gains, (x, gains) ∈ l := by
  simp

namespace Apart

theorem keys (h : Apart id s t) {x : OrderId} (hx : x ≠ id) :
    x ∈ t.begun.map Prod.fst ↔ x ∈ s.begun.map Prod.fst := by
  rw [mem_keys_iff, mem_keys_iff]
  exact exists_congr fun gains => h.begun (x, gains) hx

theorem old (h : Apart id s t) (x : OrderId) : t.Old x ↔ s.Old x := by
  unfold Tables.Old
  rw [h.date, h.index, h.now]

theorem statusOf (h : Apart id s t) {x : OrderId} (hx : x ≠ id) :
    t.statusOf x = s.statusOf x := by
  unfold Tables.statusOf
  rw [h.info x hx]

theorem fits (h : Apart id s t) {token : Token} (hne : token.orderId ≠ id)
    (hfits : token.Fits c s) : token.Fits c t := by
  obtain ⟨hknown, o, hinfo, hplayer, hphase⟩ := hfits
  refine ⟨hknown, o, (h.info _ hne).trans hinfo, hplayer, ?_⟩
  cases hph : token.phase with
  | pending detail =>
      rw [hph] at hphase
      exact ⟨hphase.1, h.detail ▸ hphase.2⟩
  | lost =>
      rw [hph] at hphase
      exact ⟨hphase.1, fun hmem => hphase.2 ((h.keys hne).mp hmem)⟩
  | giving gains todo =>
      rw [hph] at hphase
      obtain ⟨hstatus, hmem, hpart, hall⟩ := hphase
      refine ⟨hstatus, (h.begun (_, gains) hne).mpr hmem, ?_, ?_⟩
      · rw [h.booked _ hne]
        exact hpart
      · rw [h.booked _ hne]
        exact hall

end Apart

namespace Held

theorem token {phase : Phase} (h : Held c s ({⟨playerId, id, phase, known⟩} + m)) :
    known ∧ ∃ o, s.paymentInfo id = some o ∧ o.playerId = playerId ∧
      phase.Fits c s id o.orderStatus :=
  h.fits ⟨playerId, id, phase, known⟩ (by simp)

theorem order_ne {phase : Phase} (h : Held c s ({⟨playerId, id, phase, known⟩} + m)) {token : Token}
    (hm : token ∈ m) : token.orderId ≠ id := by
  intro heq
  obtain ⟨-, o, hinfo, hplayer, -⟩ := h.token
  obtain ⟨-, o', hinfo', hplayer', -⟩ := h.fits token (by simp [hm])
  rw [heq, hinfo] at hinfo'
  obtain rfl := Option.some.inj hinfo'
  have hnodup := h.nodup
  rw [Multiset.singleton_add, Multiset.map_cons, Multiset.nodup_cons] at hnodup
  refine hnodup.1 (Multiset.mem_map.mpr ⟨token, hm, ?_⟩)
  rw [← hplayer', ← hplayer]

theorem go {phase phase' : Phase} {known' : Prop}
    (h : Held c s ({⟨playerId, id, phase, known⟩} + m)) (ha : Apart id s t)
    (hfits : Token.Fits c t ⟨playerId, id, phase', known'⟩)
    (honce : (t.begun.map Prod.fst).Nodup)
    (hpart : ∀ gains, (id, gains) ∈ t.begun → (t.bookedOf id).Sublist gains)
    (hun : id ∉ t.begun.map Prod.fst → t.bookedOf id = [])
    (hcomplete : id ∈ t.begun.map Prod.fst → t.statusOf id = some .complete) :
    Held c t ({⟨playerId, id, phase', known'⟩} + m) := by
  refine ⟨?_, ?_, ?_, honce, ?_, ?_, ?_, ?_, ?_⟩
  · intro player
    rw [ha.lock]
    simpa using h.lock player
  · simpa using h.nodup
  · intro token htoken
    rcases Multiset.mem_add.mp htoken with htoken | htoken
    · obtain rfl := Multiset.mem_singleton.mp htoken
      exact hfits
    · exact ha.fits (h.order_ne htoken) (h.fits token (by simp [htoken]))
  · intro x hx
    by_cases hid : x.1 = id
    · have hmem : (id, x.2) ∈ t.begun := by
        rw [← hid]
        exact hx
      rw [hid]
      exact hpart x.2 hmem
    · rw [ha.booked _ hid]
      exact h.part x ((ha.begun x hid).mp hx)
  · intro x hx
    by_cases hid : x = id
    · subst hid
      exact hun hx
    · rw [ha.booked _ hid]
      exact h.unbegun x fun hmem => hx ((ha.keys hid).mpr hmem)
  · intro x hx
    by_cases hid : x = id
    · subst hid
      exact hcomplete hx
    · rw [ha.statusOf hid]
      exact h.complete x ((ha.keys hid).mp hx)
  · intro x o hinfo
    rw [ha.old]
    by_cases hid : x = id
    · subst hid
      obtain ⟨o', hinfo', horder⟩ := ha.ids o hinfo
      rw [horder]
      exact h.ids x o' hinfo'
    · rw [ha.info x hid] at hinfo
      exact h.ids x o hinfo
  · rw [ha.returned]
    exact h.good

theorem unbegun_of_status (h : Held c s m) {o : Order} (hinfo : s.paymentInfo id = some o)
    (hstatus : o.orderStatus ≠ .complete) : id ∉ s.begun.map Prod.fst := by
  intro hmem
  have hcomplete := h.complete id hmem
  rw [Tables.statusOf, hinfo] at hcomplete
  exact hstatus (Option.some.inj hcomplete)

end Held

/-! ## Steps of the call that holds the lock -/

theorem ne_orderStatus_of_mem {mod : Modify} {u : Update}
    (h : u ∈ mod.updates.tail) (v : OrderStatus) : u ≠ .orderStatus v := by
  rintro rfl
  simp [Modify.updates] at h

theorem orderStatus_written {o : Order} (hinfo : s.paymentInfo id = some o) (mod : Modify) :
    (o.setAll (s.written id mod)).orderStatus = mod.orderStatus := by
  have hchanges : s.changes id mod.updates = o.changes mod.updates := by
    rw [Tables.changes, hinfo]
  rw [Tables.written, hchanges]
  refine orderStatus_setAll_changes (fun u (hu : u ∈ mod.updates.tail) => ne_orderStatus_of_mem hu)
    fun u hu v => ?_
  split at hu
  · obtain rfl := List.mem_singleton.mp hu
    simp
  · cases hu

section Turns

variable {fr : Multiset Token → Prop} {detail : Option (List Asset)} {gains todo : List Gain}
  {gain : Gain}

def Phase.written (detail : Option (List Asset)) (status : OrderStatus) : Phase :=
  if status = .complete then .lost else .pending detail

theorem apart_setFields (updates : List Update) : Apart id s (s.setFields id updates) := by
  unfold Tables.setFields
  cases hinfo : s.paymentInfo id with
  | none =>
      exact ⟨rfl, fun _ _ => rfl, fun o ho => ⟨o, ho, rfl⟩, rfl, fun _ _ => Iff.rfl,
        fun _ _ => rfl, rfl, rfl, rfl, rfl⟩
  | some o =>
      refine ⟨rfl, fun x hx => Function.update_of_ne hx _ _, fun o' ho' => ⟨o, hinfo, ?_⟩, rfl,
        fun _ _ => Iff.rfl, fun _ _ => rfl, rfl, rfl, rfl, rfl⟩
      dsimp only at ho'
      rw [Function.update_self] at ho'
      rw [← Option.some.inj ho']

theorem turns_setFields (mod : Modify) :
    (owning c).Turns fr s {⟨playerId, id, .pending detail, known⟩}
      (s.setFields id (s.written id mod))
      {⟨playerId, id, .written detail mod.orderStatus,
        known ∧ s.paymentInfoDetail id = detail⟩} := by
  refine ⟨trivial, fun f _ h => ?_⟩
  obtain ⟨hknown, o, hinfo, hplayer, hstatus, hdetail⟩ := h.token
  have hnot := h.unbegun_of_status hinfo hstatus
  have heq : s.setFields id (s.written id mod) =
      { s with
        paymentInfo := Function.update s.paymentInfo id
          (some { o with toFields := o.setAll (s.written id mod) }) } := by
    rw [Tables.setFields, hinfo]
  have hnew := orderStatus_written hinfo mod
  refine h.go (apart_setFields _) ?_ ?_ ?_ ?_ ?_
  · rw [heq]
    refine ⟨⟨hknown, hdetail⟩, _, Function.update_self .., hplayer, ?_⟩
    dsimp only
    rw [hnew, Phase.written]
    split
    · rename_i hcomplete
      exact ⟨hcomplete, hnot⟩
    · rename_i hcomplete
      exact ⟨hcomplete, hdetail⟩
  · rw [heq]
    exact h.once
  · intro gains hgains
    rw [heq] at hgains
    exact absurd (mem_keys_iff.mpr ⟨gains, hgains⟩) hnot
  · intro _
    rw [heq]
    exact h.unbegun id hnot
  · intro hmem
    rw [heq] at hmem
    exact absurd hmem hnot

theorem turns_start (htodo : todo.Sublist gains) (hall : c → known → todo = gains) :
    (owning c).Turns fr s {⟨playerId, id, .lost, known⟩} (s.start id gains)
      {⟨playerId, id, .giving gains todo, known⟩} := by
  refine ⟨trivial, fun f _ h => ?_⟩
  obtain ⟨hknown, o, hinfo, hplayer, hstatus, hnot⟩ := h.token
  have hkeys : (s.start id gains).begun.map Prod.fst = s.begun.map Prod.fst ++ [id] := by
    simp [Tables.start]
  have hbooked : (s.start id gains).bookedOf id = [] := h.unbegun id hnot
  refine h.go ⟨rfl, fun _ _ => rfl, fun o ho => ⟨o, ho, rfl⟩, rfl, fun x hx => ?_,
    fun _ _ => rfl, rfl, rfl, rfl, rfl⟩ ?_ ?_ ?_ ?_ ?_
  · simp only [Tables.start, List.mem_append, List.mem_singleton]
    exact ⟨fun hmem => hmem.resolve_right fun heq => hx (heq ▸ rfl), .inl⟩
  · refine ⟨hknown, o, hinfo, hplayer, hstatus, by simp [Tables.start], ?_, ?_⟩
    · rw [hbooked]
      exact htodo
    · rw [hbooked]
      exact fun h => hall h hknown
  · rw [hkeys, List.nodup_append]
    refine ⟨h.once, by simp, fun x hx y hy heq => hnot ?_⟩
    obtain rfl := List.mem_singleton.mp hy
    exact heq ▸ hx
  · intro gains _
    rw [hbooked]
    exact List.nil_sublist _
  · intro _
    exact hbooked
  · intro _
    rw [Tables.statusOf]
    exact (congrArg (Option.map fun o => o.orderStatus) hinfo).trans (congrArg some hstatus)

theorem Held.go_giving {s t : Tables} {m : Multiset Token} {todo' : List Gain}
    (h : Held c s ({⟨playerId, id, .giving gains todo, known⟩} + m))
    (ha : Apart id s t) (hbegun : t.begun = s.begun) (hinfo : t.paymentInfo = s.paymentInfo)
    (hpart : (t.bookedOf id ++ todo').Sublist (s.bookedOf id ++ todo))
    (hall : c → t.bookedOf id ++ todo' = s.bookedOf id ++ todo) :
    Held c t ({⟨playerId, id, .giving gains todo', known⟩} + m) := by
  obtain ⟨hknown, o, ho, hplayer, hstatus, hmem, hsub, hgains⟩ := h.token
  have hstat : t.statusOf id = some .complete := by
    rw [Tables.statusOf, hinfo, ho]
    exact congrArg some hstatus
  have hkey : id ∈ t.begun.map Prod.fst := mem_keys_iff.mpr ⟨gains, hbegun ▸ hmem⟩
  refine h.go ha ⟨hknown, o, hinfo ▸ ho, hplayer, hstatus, hbegun ▸ hmem, hpart.trans hsub,
    fun hc => (hall hc).trans (hgains hc)⟩ (hbegun ▸ h.once) ?_ (fun hnot => absurd hkey hnot)
    fun _ => hstat
  intro gains' hgains'
  have hsame : gains' = gains := by
    rw [hbegun] at hgains'
    exact congrArg Prod.snd (List.inj_on_of_nodup_map h.once hgains' hmem rfl)
  rw [hsame]
  exact (List.sublist_append_left _ todo').trans (hpart.trans hsub)

theorem turns_book : (owning c).Turns fr s {⟨playerId, id, .giving gains (gain :: todo), known⟩}
    (s.book id playerId gain) {⟨playerId, id, .giving gains todo, known⟩} := by
  refine ⟨trivial, fun f _ h => ?_⟩
  have hbooked : (s.book id playerId gain).bookedOf id ++ todo =
      s.bookedOf id ++ gain :: todo := by
    rw [Tables.bookedOf_book, if_pos rfl, List.append_assoc, List.singleton_append]
  refine h.go_giving ⟨rfl, fun _ _ => rfl, fun o ho => ⟨o, ho, rfl⟩, rfl, fun _ _ => Iff.rfl,
    fun x hx => ?_, rfl, rfl, rfl, rfl⟩ rfl rfl ?_ fun _ => hbooked
  · rw [Tables.bookedOf_book, if_neg (Ne.symm hx), List.append_nil]
  · rw [hbooked]

theorem turns_skip (hc : ¬c) :
    (owning c).Turns fr s {⟨playerId, id, .giving gains (gain :: todo), known⟩} s
      {⟨playerId, id, .giving gains todo, known⟩} := by
  refine ⟨trivial, fun f _ h => ?_⟩
  refine h.go_giving ⟨rfl, fun _ _ => rfl, fun o ho => ⟨o, ho, rfl⟩, rfl, fun _ _ => Iff.rfl,
    fun _ _ => rfl, rfl, rfl, rfl, rfl⟩ rfl rfl ?_ fun h => absurd h hc
  exact (List.sublist_cons_self gain todo).append_left _

theorem turns_updateRow {tokens : Multiset Token} (updates : List Update)
    (wait : PlayerId → Option Int) :
    (owning c).Turns fr s tokens
      { s.updateRow id updates with playerOrderWaitTime := wait } tokens :=
  ⟨trivial, fun _ _ h => ⟨h.lock, h.nodup, h.fits, h.once, h.part, h.unbegun, h.complete,
    h.ids, h.good⟩⟩

theorem turns_receiveBag {tokens : Multiset Token} {giftBagId : ProductId} :
    (owning c).Turns fr s tokens (s.receiveBag playerId giftBagId) tokens :=
  ⟨trivial, fun _ _ h => ⟨h.lock, h.nodup, h.fits, h.once, h.part, h.unbegun, h.complete,
    h.ids, h.good⟩⟩

theorem turns_refl {tokens : Multiset Token} : (owning c).Turns fr s tokens s tokens :=
  ⟨trivial, fun _ _ h => h⟩

theorem turns_lock {o : Order} (hinfo : s.paymentInfo id = some o)
    (hstatus : o.orderStatus ≠ .complete)
    (hlock : s.modifyPayOrderPlayerLock o.playerId = false) :
    (owning c).Turns fr s 0 (s.setLock o.playerId true)
      {⟨o.playerId, o.orderId, .pending (s.paymentInfoDetail id), o.orderId = id⟩} := by
  refine ⟨trivial, fun f _ h => ?_⟩
  rw [zero_add] at h
  have hfree : o.playerId ∉ f.map Token.playerId := fun hmem => by
    rw [(h.lock _).mpr hmem] at hlock
    cases hlock
  have hfits (token : Token) (hf : token.Fits c s) : token.Fits c (s.setLock o.playerId true) := by
    obtain ⟨hknown, o', hinfo', hplayer', hphase⟩ := hf
    refine ⟨hknown, o', hinfo', hplayer', ?_⟩
    cases hph : token.phase with
    | _ =>
        rw [hph] at hphase
        exact hphase
  refine ⟨fun player => ?_, ?_, fun token htoken => ?_, h.once, h.part, h.unbegun, h.complete,
    h.ids, h.good⟩
  · change Function.update s.modifyPayOrderPlayerLock o.playerId true player = true ↔ _
    rw [Multiset.singleton_add, Multiset.map_cons, Multiset.mem_cons]
    by_cases hp : player = o.playerId
    · subst hp
      simp
    · rw [Function.update_of_ne hp, h.lock player]
      simp [hp]
  · rw [Multiset.singleton_add, Multiset.map_cons, Multiset.nodup_cons]
    exact ⟨hfree, h.nodup⟩
  · rcases Multiset.mem_add.mp htoken with htoken | htoken
    · obtain rfl := Multiset.mem_singleton.mp htoken
      have hid := (h.ids id o hinfo).1
      refine ⟨hid, o, ?_, rfl, hstatus, ?_⟩
      · rw [hid]
        exact hinfo
      · rw [hid]
        rfl
    · exact hfits token (h.fits token htoken)

end Turns

end JyQipai.Payment
