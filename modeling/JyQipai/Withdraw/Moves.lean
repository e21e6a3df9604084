import JyQipai.Withdraw.Order

/-!
# What a withdrawal moves

An order whose web request was not answered yet is owned by the request: nothing has
been booked for it, and the request may deduct its money once.  As long as an order is
failed only after its money was deducted, the status of the order says what has been
booked for it.
-/

namespace JyQipai.Withdraw

open JyQipai.Lib

namespace State

def booked (s : State) (id : OrderId) : Multiset Int :=
  (((s.ledger ++ s.mail).filter (·.changeId = some id)).map (·.value) : List Int)

def Old (s : State) (id : OrderId) : Prop :=
  ∃ d, s.lastWithdrawDate = some d ∧ d ≤ s.today ∧
    (id.day < d ∨ id.day = d ∧ id.index ≤ s.lastWithdrawTodayIndex)

end State

def Final (st : Status) : Prop := st = .complete ∨ st = .fail

instance : DecidablePred Final :=
  fun st => inferInstanceAs (Decidable (st = .complete ∨ st = .fail))

structure Exact (s : State) (o : Order) : Prop where
  pos : 0 < o.money
  cash : o.assetType = some "cash"
  complete : o.status = .complete → s.booked o.id = {-o.money}
  fail : o.status = .fail → s.booked o.id = {-o.money, o.money}
  running : ¬ Final o.status → s.booked o.id = 0 ∨ s.booked o.id = {-o.money}
  refused : o.id ∈ s.refused → s.booked o.id = 0

/-- The player's cash was `c` in the beginning. -/
structure Sound (c : Int) (s : State) : Prop where
  nodup : (s.withdrawDatas.map (·.id)).Nodup
  old : ∀ o ∈ s.withdrawDatas, s.Old o.id
  booked_old : ∀ id, s.booked id ≠ 0 → s.Old id
  refused_old : ∀ id ∈ s.refused, s.Old id
  exact : ∀ o ∈ s.withdrawDatas, Exact s o
  playerCash : s.playerCash = c + (s.ledger.map (·.value)).sum

def Open (s : State) (p : OrderId × Int) : Prop :=
  ∃ o ∈ s.withdrawDatas, o.id = p.1 ∧ o.money = p.2 ∧ ¬ Final o.status ∧
    s.booked o.id = 0 ∧ o.id ∉ s.refused

def owning (c : Int) : Owning State Ask Answer (Multiset (OrderId × Int)) where
  valid := Valid
  keeps _ := True
  holds s g := Sound c s ∧ (g.map Prod.fst).Nodup ∧ ∀ p ∈ g, Open s p
  may _ _ := True
  frame _ _ _ _ := True

/-! ## Bookings -/

namespace State

variable {s t : State} {c : Int}

theorem booked_changeCash (s : State) (b : Booking) (id : OrderId) :
    (s.changeCash b).booked id =
      s.booked id + if b.changeId = some id then {b.value} else 0 := by
  unfold booked changeCash
  dsimp only
  rw [← List.append_assoc, List.filter_append, List.map_append, ← Multiset.coe_add]
  congr 1
  by_cases h : b.changeId = some id
  · simp [h]
  · simp [h]

theorem booked_changeAsset (s : State) (b : Booking) (id : OrderId) :
    (s.changeAsset b).booked id =
      s.booked id + if b.changeId = some id then {b.value} else 0 := by
  unfold booked changeAsset
  dsimp only
  simp only [List.filter_append, List.map_append, ← Multiset.coe_add]
  rw [add_right_comm]
  by_cases h : b.changeId = some id
  · simp [h]
  · simp [h]

theorem booked_deliver (s : State) (id : OrderId) : s.deliver.booked id = s.booked id := by
  unfold deliver
  cases hm : s.mail with
  | nil => rfl
  | cons b mail => simp [booked, changeAsset, hm]

theorem playerCash_changeAsset (h : s.playerCash = c + (s.ledger.map (·.value)).sum)
    (b : Booking) :
    (s.changeAsset b).playerCash = c + ((s.changeAsset b).ledger.map (·.value)).sum := by
  simp only [changeAsset, List.map_append, List.sum_append, List.map_singleton,
    List.sum_singleton, h]
  omega

end State

/-! ## Stretches -/

structure Same (s t : State) : Prop where
  orders : t.withdrawDatas = s.withdrawDatas
  booked : ∀ id, t.booked id = s.booked id
  refused : t.refused = s.refused
  old : ∀ id, s.Old id → t.Old id
  playerCash : ∀ c, s.playerCash = c + (s.ledger.map (·.value)).sum →
    t.playerCash = c + (t.ledger.map (·.value)).sum

section Turns

variable {s t : State} {c : Int} {fr : Multiset (OrderId × Int) → Prop}
  {g : Multiset (OrderId × Int)}

theorem Exact.same {o : Order} (h : Exact s o) (hst : Same s t) : Exact t o where
  pos := h.pos
  cash := h.cash
  complete := hst.booked o.id ▸ h.complete
  fail := hst.booked o.id ▸ h.fail
  running := hst.booked o.id ▸ h.running
  refused := hst.booked o.id ▸ hst.refused ▸ h.refused

theorem Sound.same (h : Sound c s) (hst : Same s t) : Sound c t where
  nodup := hst.orders ▸ h.nodup
  old o ho := hst.old _ (h.old o (hst.orders ▸ ho))
  booked_old id hid := hst.old _ (h.booked_old id (hst.booked id ▸ hid))
  refused_old id hid := hst.old _ (h.refused_old id (hst.refused ▸ hid))
  exact o ho := (h.exact o (hst.orders ▸ ho)).same hst
  playerCash := hst.playerCash c h.playerCash

theorem Open.same {p : OrderId × Int} (h : Open s p) (hst : Same s t) : Open t p := by
  obtain ⟨o, ho, hid, hmoney, hrun, hbooked, hrefused⟩ := h
  refine ⟨o, hst.orders ▸ ho, hid, hmoney, hrun, ?_, hst.refused ▸ hrefused⟩
  rw [hst.booked, hbooked]

theorem turns_same (hst : Same s t) : (owning c).Turns fr s g t g :=
  ⟨trivial, fun _ _ h => ⟨h.1.same hst, h.2.1, fun p hp => (h.2.2 p hp).same hst⟩⟩

theorem same_locks (s : State) (cashLock moneyLock : Bool) :
    Same s { s with
      withdrawCashLock := cashLock
      withdrawMoneyLock := moneyLock } :=
  ⟨rfl, fun _ => rfl, rfl, fun _ h => h, fun _ h => h⟩

theorem same_changeCash (s : State) (value : Int) : Same s (s.changeCash ⟨none, value⟩) where
  orders := rfl
  booked id := by
    rw [State.booked_changeCash]
    simp
  refused := rfl
  old _ h := h
  playerCash _ h := h

theorem same_changeAsset (s : State) (value : Int) :
    Same s (s.changeAsset ⟨none, value⟩) where
  orders := rfl
  booked id := by
    rw [State.booked_changeAsset]
    simp
  refused := rfl
  old _ h := h
  playerCash _ h := State.playerCash_changeAsset h _

theorem same_deliver (s : State) : Same s s.deliver where
  orders := by
    unfold State.deliver
    split <;> rfl
  booked := State.booked_deliver s
  refused := by
    unfold State.deliver
    split <;> rfl
  old id h := by
    unfold State.deliver
    split
    · exact h
    · exact h
  playerCash _ h := by
    unfold State.deliver
    split
    · exact h
    · exact State.playerCash_changeAsset h _

/-! ### An order is created -/

theorem not_old_next (s : State) (random : String) :
    ¬ s.Old ⟨s.today, s.nextIndex, random⟩ := by
  rintro ⟨d, hd, hle, hlt | ⟨heq, hindex⟩⟩
  · dsimp only at hlt
    omega
  · dsimp only at heq hindex
    unfold State.nextIndex at hindex
    rw [hd, if_pos (by rw [heq])] at hindex
    omega

theorem old_insertOrder {random : String} {assetType : Option AssetManage.AssetType}
    {money : Int} {id : OrderId} (h : s.Old id) :
    (s.insertOrder random assetType money).Old id := by
  obtain ⟨d, hd, hle, hid⟩ := h
  refine ⟨s.today, rfl, le_refl _, ?_⟩
  by_cases hday : d = s.today
  · subst hday
    have hindex : s.nextIndex = s.lastWithdrawTodayIndex + 1 := if_pos hd
    rcases hid with hlt | ⟨heq, hle⟩
    · exact .inl hlt
    · refine .inr ⟨heq, ?_⟩
      change id.index ≤ s.nextIndex
      omega
  · left
    omega

theorem old_next (s : State) (random : String) (assetType : Option AssetManage.AssetType)
    (money : Int) :
    (s.insertOrder random assetType money).Old ⟨s.today, s.nextIndex, random⟩ :=
  ⟨s.today, rfl, le_refl _, .inr ⟨rfl, le_refl _⟩⟩

theorem insertOrder_orders (hs : Sound c s) (random : String)
    (assetType : Option AssetManage.AssetType) (money : Int) :
    (s.insertOrder random assetType money).withdrawDatas =
      ⟨⟨s.today, s.nextIndex, random⟩, money, assetType, .init⟩ :: s.withdrawDatas := by
  unfold State.insertOrder
  dsimp only
  rw [List.filter_eq_self.mpr]
  intro o ho
  simp only [ne_eq, decide_eq_true_eq]
  intro heq
  exact not_old_next s random (heq ▸ hs.old o ho)

theorem booked_next (hs : Sound c s) (random : String) :
    s.booked ⟨s.today, s.nextIndex, random⟩ = 0 := by
  by_contra h
  exact not_old_next s random (hs.booked_old _ h)

theorem Sound.insertOrder (hs : Sound c s) (random : String) {money : Int}
    (hmoney : 0 < money) : Sound c (s.insertOrder random (some "cash") money) where
  nodup := by
    rw [insertOrder_orders hs, List.map_cons, List.nodup_cons]
    refine ⟨fun hmem => ?_, hs.nodup⟩
    obtain ⟨o, ho, hid⟩ := List.mem_map.mp hmem
    have hold := hs.old o ho
    rw [hid] at hold
    exact not_old_next s random hold
  old o ho := by
    rw [insertOrder_orders hs] at ho
    rcases List.mem_cons.mp ho with rfl | ho
    · exact old_next s random _ _
    · exact old_insertOrder (hs.old o ho)
  booked_old id hid := old_insertOrder (hs.booked_old id hid)
  refused_old id hid := old_insertOrder (hs.refused_old id hid)
  exact o ho := by
    rw [insertOrder_orders hs] at ho
    rcases List.mem_cons.mp ho with rfl | ho
    · exact {
        pos := hmoney
        cash := rfl
        complete := by simp
        fail := by simp
        running := fun _ => .inl (booked_next hs random)
        refused := fun _ => booked_next hs random }
    · have := hs.exact o ho
      exact ⟨this.pos, this.cash, this.complete, this.fail, this.running, this.refused⟩
  playerCash := hs.playerCash

theorem turns_insertOrder (s : State) (random : String) {money : Int} (hmoney : 0 < money) :
    (owning c).Turns fr s 0 (s.insertOrder random (some "cash") money)
      {(⟨s.today, s.nextIndex, random⟩, money)} := by
  refine ⟨trivial, fun f _ ⟨hs, hnodup, hopen⟩ => ⟨hs.insertOrder random hmoney, ?_,
    fun p hp => ?_⟩⟩
  · rw [zero_add] at hnodup hopen
    rw [Multiset.singleton_add, Multiset.map_cons, Multiset.nodup_cons]
    refine ⟨fun hmem => ?_, hnodup⟩
    obtain ⟨p, hp, hid⟩ := Multiset.mem_map.mp hmem
    obtain ⟨o, ho, hop, -⟩ := hopen p hp
    have hold := hs.old o ho
    rw [hop, hid] at hold
    exact not_old_next s random hold
  · rcases Multiset.mem_add.mp hp with hp | hp
    · obtain rfl := Multiset.mem_singleton.mp hp
      refine ⟨⟨⟨s.today, s.nextIndex, random⟩, money, some "cash", .init⟩, ?_, rfl, rfl, ?_,
        booked_next hs random, fun h => not_old_next s random (hs.refused_old _ h)⟩
      · rw [insertOrder_orders hs]
        exact List.mem_cons_self
      · simp [Final]
    · obtain ⟨o, ho, hrest⟩ := hopen p (by rwa [zero_add])
      refine ⟨o, ?_, hrest⟩
      rw [insertOrder_orders hs]
      exact List.mem_cons_of_mem _ ho

/-! ### The owner of an order ends -/

theorem order_unique (hs : Sound c s) {o o' : Order} (ho : o ∈ s.withdrawDatas)
    (ho' : o' ∈ s.withdrawDatas) (hid : o.id = o'.id) : o = o' :=
  List.inj_on_of_nodup_map hs.nodup ho ho' hid

structure Only (id : OrderId) (s t : State) : Prop where
  orders : t.withdrawDatas = s.withdrawDatas
  booked : ∀ x, x ≠ id → t.booked x = s.booked x
  refused : ∀ x, x ≠ id → (x ∈ t.refused ↔ x ∈ s.refused)
  old : ∀ x, t.Old x ↔ s.Old x
  playerCash : ∀ c, s.playerCash = c + (s.ledger.map (·.value)).sum →
    t.playerCash = c + (t.ledger.map (·.value)).sum

theorem turns_only {id : OrderId} {money : Int} (hst : Only id s t)
    (hexact : ∀ o, o.id = id → o.money = money → ¬ Final o.status → s.booked id = 0 →
      id ∉ s.refused → Exact s o → Exact t o) :
    (owning c).Turns fr s {(id, money)} t 0 := by
  refine ⟨trivial, fun f _ ⟨hs, hnodup, hopen⟩ => ⟨?_, ?_, fun p hp => ?_⟩⟩
  · obtain ⟨o, ho, hid, hmoney, hrun, hbooked, hrefused⟩ :=
      hopen (id, money) (Multiset.mem_add.mpr (.inl (Multiset.mem_singleton_self _)))
    dsimp only at hid hmoney
    subst hid
    have hold := hs.old o ho
    exact {
      nodup := hst.orders ▸ hs.nodup
      old := fun o' ho' => (hst.old _).mpr (hs.old o' (hst.orders ▸ ho'))
      booked_old := fun x hx => by
        rw [hst.old]
        by_cases h : x = o.id
        · exact h ▸ hold
        · exact hs.booked_old x (hst.booked x h ▸ hx)
      refused_old := fun x hx => by
        rw [hst.old]
        by_cases h : x = o.id
        · exact h ▸ hold
        · exact hs.refused_old x ((hst.refused x h).mp hx)
      exact := fun o' ho' => by
        rw [hst.orders] at ho'
        have he := hs.exact o' ho'
        by_cases h : o'.id = o.id
        · obtain rfl := order_unique hs ho' ho h
          exact hexact o' rfl hmoney hrun hbooked hrefused he
        · exact {
            pos := he.pos
            cash := he.cash
            complete := hst.booked _ h ▸ he.complete
            fail := hst.booked _ h ▸ he.fail
            running := hst.booked _ h ▸ he.running
            refused := fun hx => hst.booked _ h ▸ he.refused ((hst.refused _ h).mp hx) }
      playerCash := hst.playerCash c hs.playerCash }
  · rw [Multiset.map_add] at hnodup
    rw [zero_add]
    exact (Multiset.nodup_add.mp hnodup).2.1
  · rw [zero_add] at hp
    obtain ⟨o, ho, hid, hmoney, hrun, hbooked, hrefused⟩ :=
      hopen p (Multiset.mem_add.mpr (.inr hp))
    have hne : o.id ≠ id := by
      intro h
      rw [Multiset.singleton_add, Multiset.map_cons, Multiset.nodup_cons] at hnodup
      refine hnodup.1 (Multiset.mem_map.mpr ⟨p, hp, ?_⟩)
      rw [← hid, h]
    refine ⟨o, hst.orders ▸ ho, hid, hmoney, hrun, ?_, ?_⟩
    · rw [hst.booked _ hne, hbooked]
    · rwa [hst.refused _ hne]

theorem turns_deduct (s : State) (id : OrderId) (money : Int) :
    (owning c).Turns fr s {(id, money)} (s.changeCash ⟨some id, -money⟩) 0 := by
  have hbooked := s.booked_changeCash ⟨some id, -money⟩
  refine turns_only ⟨rfl, fun x hx => ?_, fun _ _ => Iff.rfl, fun _ => Iff.rfl,
    fun _ h => h⟩ fun o hid hmoney hrun hzero hrefused he => ?_
  · rw [hbooked, if_neg (by simpa using Ne.symm hx), add_zero]
  · subst hid hmoney
    have htaken : (s.changeCash ⟨some o.id, -o.money⟩).booked o.id = {-o.money} := by
      rw [hbooked, hzero, if_pos rfl, zero_add]
    exact {
      pos := he.pos
      cash := he.cash
      complete := fun h => absurd (.inl h) hrun
      fail := fun h => absurd (.inr h) hrun
      running := fun _ => .inr htaken
      refused := fun h => absurd h hrefused }

theorem turns_refuse (s : State) (id : OrderId) (money : Int) :
    (owning c).Turns fr s {(id, money)} (s.refuse (some id)) 0 := by
  refine turns_only ⟨rfl, fun _ _ => rfl, fun x hx => ?_, fun _ => Iff.rfl,
    fun _ h => h⟩ fun o hid _ hrun hzero _ he => ?_
  · simp [State.refuse, hx]
  · subst hid
    exact ⟨he.pos, he.cash, he.complete, he.fail, he.running, fun _ => hzero⟩

/-! ### The status of an order is changed -/

def Paid (s : State) (o : Order) (st : Status) : Prop :=
  Final st → -o.money ∈ s.booked o.id

theorem ids_map_status (l : List Order) (id : OrderId) (st : Status) :
    (l.map fun x => if x.id = id then { x with status := st } else x).map (·.id) =
      l.map (·.id) := by
  rw [List.map_map]
  refine List.map_congr_left fun x _ => ?_
  by_cases h : x.id = id
  · simp [h]
  · simp [h]

theorem ids_setStatus (s : State) (o : Order) (st : Status) :
    (s.setStatus o st).withdrawDatas.map (·.id) = s.withdrawDatas.map (·.id) := by
  unfold State.setStatus
  dsimp only
  split <;> exact ids_map_status _ _ _

theorem Exact.setStatus {o : Order} {st : Status} (he : Exact s o)
    (hrun : ¬ Final o.status) (hpaid : Paid s o st)
    (hbooked : t.booked o.id = s.booked o.id + if st = .fail ∧ o.id = o.id then {o.money} else 0)
    (hrefused : t.refused = s.refused) : Exact t { o with status := st } := by
  have htaken : Final st → s.booked o.id = {-o.money} := by
    intro hst
    rcases he.running hrun with h | h
    · have hmem := hpaid hst
      rw [h] at hmem
      exact absurd hmem (Multiset.notMem_zero _)
    · exact h
  refine {
    pos := he.pos
    cash := he.cash
    complete := ?_
    fail := ?_
    running := ?_
    refused := ?_ }
  · rintro rfl
    change t.booked o.id = _
    rw [hbooked, htaken (.inl rfl)]
    simp
  · rintro rfl
    change t.booked o.id = _
    rw [hbooked, htaken (.inr rfl), if_pos ⟨rfl, rfl⟩]
    rfl
  · intro hst
    change t.booked o.id = _ ∨ t.booked o.id = _
    rw [hbooked, if_neg (fun hand => hst (.inr hand.1)), add_zero]
    exact he.running hrun
  · intro hid
    change t.booked o.id = _
    rw [hrefused] at hid
    have hzero := he.refused hid
    have hst : ¬ Final st := by
      intro hst
      have := htaken hst
      rw [hzero] at this
      exact absurd this.symm (Multiset.singleton_ne_zero _)
    rw [hbooked, if_neg (fun hand => hst (.inr hand.1)), add_zero, hzero]

theorem mem_setStatus {o x : Order} {st : Status} :
    x ∈ (s.setStatus o st).withdrawDatas ↔
      (x ∈ s.withdrawDatas ∧ x.id ≠ o.id) ∨
        ∃ y ∈ s.withdrawDatas, y.id = o.id ∧ x = { y with status := st } := by
  have horders : (s.setStatus o st).withdrawDatas = s.withdrawDatas.map fun x =>
      if x.id = o.id then { x with status := st } else x := by
    unfold State.setStatus
    dsimp only
    split <;> rfl
  rw [horders, List.mem_map]
  constructor
  · rintro ⟨y, hy, rfl⟩
    split
    · next h => exact .inr ⟨y, hy, h, rfl⟩
    · next h => exact .inl ⟨hy, h⟩
  · rintro (⟨hx, hne⟩ | ⟨y, hy, heq, rfl⟩)
    · exact ⟨x, hx, if_neg hne⟩
    · exact ⟨y, hy, if_pos heq⟩

theorem booked_setStatus {o : Order} (hcash : o.assetType = some "cash") (st : Status)
    (id : OrderId) :
    (s.setStatus o st).booked id =
      s.booked id + if st = .fail ∧ o.id = id then {o.money} else 0 := by
  change State.booked
    (if st = .fail ∧ o.assetType ≠ none then s.changeAsset ⟨some o.id, o.money⟩ else s) id = _
  by_cases h : st = .fail
  · rw [if_pos ⟨h, by simp [hcash]⟩, State.booked_changeAsset]
    simp [h]
  · rw [if_neg (fun hand => h hand.1), if_neg (fun hand => h hand.1), add_zero]

theorem Sound.setStatus (hs : Sound c s) {o : Order} {st : Status}
    (ho : o ∈ s.withdrawDatas) (hrun : ¬ Final o.status) (hpaid : Paid s o st) :
    Sound c (s.setStatus o st) := by
  have he := hs.exact o ho
  have hbooked := booked_setStatus (s := s) he.cash st
  have hold : ∀ id, (s.setStatus o st).Old id ↔ s.Old id := by
    intro id
    unfold State.setStatus State.Old
    dsimp only
    split <;> exact Iff.rfl
  have hrefused : (s.setStatus o st).refused = s.refused := by
    unfold State.setStatus
    dsimp only
    split <;> rfl
  refine {
    nodup := ?_
    old := ?_
    booked_old := ?_
    refused_old := ?_
    exact := ?_
    playerCash := ?_ }
  · exact ids_setStatus s o st ▸ hs.nodup
  · intro x hx
    rw [hold]
    rcases mem_setStatus.mp hx with ⟨hx, -⟩ | ⟨y, hy, -, rfl⟩
    · exact hs.old x hx
    · exact hs.old y hy
  · intro x hx
    rw [hold]
    by_cases h : x = o.id
    · exact h ▸ hs.old o ho
    · rw [hbooked, if_neg (fun hand => h hand.2.symm), add_zero] at hx
      exact hs.booked_old x hx
  · intro x hx
    rw [hold]
    exact hs.refused_old x (hrefused ▸ hx)
  · intro x hx
    rcases mem_setStatus.mp hx with ⟨hx, hne⟩ | ⟨y, hy, heq, rfl⟩
    · have hsame : (s.setStatus o st).booked x.id = s.booked x.id := by
        rw [hbooked, if_neg (fun hand => hne hand.2.symm), add_zero]
      have := hs.exact x hx
      exact ⟨this.pos, this.cash, hsame ▸ this.complete, hsame ▸ this.fail,
        hsame ▸ this.running, hsame ▸ hrefused ▸ this.refused⟩
    · obtain rfl := order_unique hs hy ho heq
      exact he.setStatus hrun hpaid (hbooked y.id) hrefused
  · unfold State.setStatus
    dsimp only
    split
    · exact State.playerCash_changeAsset hs.playerCash _
    · exact hs.playerCash

theorem turns_setStatus {o : Order} {st : Status} (ho : o ∈ s.withdrawDatas)
    (hrun : ¬ Final o.status) (hpaid : Paid s o st) :
    (owning c).Turns fr s 0 (s.setStatus o st) 0 := by
  refine ⟨trivial, fun f _ ⟨hs, hnodup, hopen⟩ =>
    ⟨hs.setStatus ho hrun hpaid, hnodup, fun p hp => ?_⟩⟩
  obtain ⟨x, hx, hid, hmoney, hxrun, hbooked, hrefused⟩ := hopen p hp
  have he := hs.exact o ho
  have hrefused' : (s.setStatus o st).refused = s.refused := by
    unfold State.setStatus
    dsimp only
    split <;> rfl
  by_cases heq : x.id = o.id
  · obtain rfl := order_unique hs hx ho heq
    have hst : ¬ Final st := by
      intro hst
      have hmem := hpaid hst
      rw [hbooked] at hmem
      exact Multiset.notMem_zero _ hmem
    refine ⟨{ x with status := st }, mem_setStatus.mpr (.inr ⟨x, hx, rfl, rfl⟩), hid, hmoney,
      hst, ?_, hrefused' ▸ hrefused⟩
    rw [booked_setStatus he.cash, if_neg (fun hand => hst (.inr hand.1)), add_zero]
    exact hbooked
  · refine ⟨x, mem_setStatus.mpr (.inl ⟨hx, heq⟩), hid, hmoney, hxrun, ?_,
      hrefused' ▸ hrefused⟩
    rw [booked_setStatus he.cash, if_neg (fun hand => heq hand.2.symm), add_zero]
    exact hbooked

end Turns

theorem same_days (s : State) (n : Nat) : Same s { s with today := s.today + n } where
  orders := rfl
  booked _ := rfl
  refused := rfl
  old _ h := by
    obtain ⟨d, hd, hle, hid⟩ := h
    exact ⟨d, hd, hle.trans (Nat.le_add_right _ n), hid⟩
  playerCash _ h := h

section Owns

variable {s : State} {c : Int} {fr : Multiset (OrderId × Int) → Prop}

/-- What `withdraw_money` returns: the order is owned if there is one, and there is one
if the result is 0. -/
def Returned (money : Int) (r : Int × Option OrderId) (_ : State)
    (g : Multiset (OrderId × Int)) : Prop :=
  (r.2 = none ∧ r.1 ≠ 0 ∧ g = 0) ∨ ∃ id, r.2 = some id ∧ g = {(id, money)}

theorem owns_requestWeb (id : OrderId) (money : Int) :
    (State.requestWeb id s).Owns (owning c) (Returned money) fr s {(id, money)} := by
  refine ⟨_, turns_same (same_locks s _ _), trivial, fun a u ha _ => ?_⟩
  cases a with
  | web ok => exact ⟨_, turns_same (same_locks u _ _), .inr ⟨id, rfl, rfl⟩⟩
  | _ => exact ha.elim

theorem createWithdrawId_cases (s : State) (random : String) (money : Int) :
    (∃ code, code ≠ 0 ∧ s.createWithdrawId random money = (.error code, s)) ∨
      0 < money ∧ s.createWithdrawId random money =
        (.ok ⟨s.today, s.nextIndex, random⟩, s.insertOrder random (some "cash") money) := by
  unfold State.createWithdrawId
  split
  · exact .inl ⟨2251, by decide, rfl⟩
  · split
    · exact .inl ⟨1003, by decide, rfl⟩
    · next hpos =>
      split
      · exact .inl ⟨2261, by decide, rfl⟩
      · exact .inr ⟨not_le.mp hpos, rfl⟩

theorem owns_requestOrder (money : Int) :
    (State.requestOrder money s).Owns (owning c) (Returned money) fr s 0 := by
  refine ⟨0, turns_same (same_locks s _ _), trivial, fun a u ha _ => ?_⟩
  cases a with
  | go random =>
      dsimp only
      rcases createWithdrawId_cases u random money with ⟨code, hcode, heq⟩ | ⟨hpos, heq⟩
      · rw [heq]
        refine ⟨0, turns_same (same_locks u _ _), trivial, fun _ v _ _ => ?_⟩
        exact ⟨0, turns_same (same_locks v _ _), .inl ⟨rfl, hcode, rfl⟩⟩
      · rw [heq]
        exact ⟨_, turns_insertOrder u random hpos, trivial,
          fun _ v _ _ => owns_requestWeb _ money⟩
  | _ => exact ha.elim

theorem owns_withdrawMoney (money : Int) :
    (State.withdrawMoney money s).Owns (owning c) (Returned money) fr s 0 := by
  have hsame : (owning c).Turns fr s 0 s 0 := turns_same (same_locks s _ _)
  unfold State.withdrawMoney
  split
  · exact ⟨0, hsame, .inl ⟨rfl, by decide, rfl⟩⟩
  · split
    · exact ⟨0, hsame, .inl ⟨rfl, by decide, rfl⟩⟩
    · split
      · exact ⟨0, hsame, .inl ⟨rfl, by decide, rfl⟩⟩
      · split
        · exact ⟨0, hsame, .inl ⟨rfl, by decide, rfl⟩⟩
        · refine ⟨0, turns_same (same_locks s _ _), trivial, fun a u ha _ => ?_⟩
          cases a with
          | verifyData openid =>
              cases openid with
              | none =>
                  exact ⟨0, turns_same (same_locks u _ _), .inl ⟨rfl, by decide, rfl⟩⟩
              | some openid => exact owns_requestOrder money
          | _ => exact ha.elim

abbrev NothingLeft (_ : Int) (_ : State) (g : Multiset (OrderId × Int)) : Prop := g = 0

theorem same_refuse (s : State) : Same s (s.refuse none) :=
  ⟨rfl, fun _ => rfl, rfl, fun _ h => h, fun _ h => h⟩

theorem owns_finishWithdraw {money : Int} {r : Int × Option OrderId}
    {g : Multiset (OrderId × Int)} (h : Returned money r s g) :
    (State.finishWithdraw money r.1 r.2 s).Owns (owning c) NothingLeft fr s g := by
  obtain ⟨code, id⟩ := r
  unfold State.finishWithdraw
  rcases h with ⟨rfl, hcode, rfl⟩ | ⟨id, rfl, rfl⟩
  · rw [if_neg hcode]
    exact ⟨0, turns_same (same_refuse s), rfl⟩
  · split
    · exact ⟨0, turns_deduct s id money, trivial, fun _ u _ _ =>
        ⟨0, turns_same (same_locks u _ _), rfl⟩⟩
    · exact ⟨0, turns_refuse s id money, rfl⟩

theorem owns_withdrawCash (cashType : Option Int) :
    (s.withdrawCash cashType).Owns (owning c) NothingLeft fr s 0 := by
  have hsame : (owning c).Turns fr s 0 s 0 := turns_same (same_locks s _ _)
  unfold State.withdrawCash
  split
  · exact ⟨0, hsame, rfl⟩
  · split
    · exact ⟨0, hsame, rfl⟩
    · split
      · exact turns_same (same_locks s _ _)
      · refine ⟨0, turns_same (same_locks s _ _), trivial, fun a u ha _ => ?_⟩
        cases a with
        | cashStatus status can =>
            dsimp only
            split
            · exact ⟨0, turns_same (same_locks u _ _), rfl⟩
            · exact (owns_withdrawMoney can).bind fun fr r t g _ hr =>
                owns_finishWithdraw hr
        | _ => exact ha.elim

def AfterPayment (s : State) : Event → Prop
  | .changeWithdrawStatus id (some .fail) =>
      ∀ o ∈ s.withdrawDatas, o.id = id → ¬ Final o.status → -o.money ∈ s.booked o.id
  | _ => True

theorem owns_handle {e : Event} (he : AfterPayment s e) :
    (handle e s).Owns (owning c) NothingLeft fr s 0 := by
  cases e with
  | withdrawCash cashType => exact owns_withdrawCash cashType
  | changeCash value => exact ⟨0, turns_same (same_changeCash s value), rfl⟩
  | changeAsset value => exact ⟨0, turns_same (same_changeAsset s value), rfl⟩
  | deliver => exact ⟨0, turns_same (same_deliver s), rfl⟩
  | onChange value =>
      exact ⟨0, turns_same ⟨rfl, fun _ => rfl, rfl, fun _ h => h, fun _ h => h⟩, rfl⟩
  | config forbid url =>
      exact ⟨0, turns_same ⟨rfl, fun _ => rfl, rfl, fun _ h => h, fun _ h => h⟩, rfl⟩
  | days n => exact ⟨0, turns_same (same_days s n), rfl⟩
  | changeWithdrawStatus id st =>
      have hsame : (owning c).Turns fr s 0 s 0 := turns_same (same_locks s _ _)
      change (State.changeWithdrawStatus id st s).Owns (owning c) NothingLeft fr s 0
      unfold State.changeWithdrawStatus
      split
      · exact ⟨0, hsame, rfl⟩
      · next o ho =>
        split
        · exact ⟨0, hsame, rfl⟩
        · exact ⟨0, hsame, rfl⟩
        · next st _ =>
          split
          · exact ⟨0, hsame, rfl⟩
          · next hrun =>
            split
            · exact hsame
            · next hne =>
              have hmem := List.mem_of_find?_eq_some ho
              have hid : o.id = id := by simpa using List.find?_some ho
              refine ⟨0, turns_setStatus hmem hrun fun hst => ?_, rfl⟩
              obtain rfl : st = .fail := hst.resolve_left hne
              exact he o hmem hid hrun

end Owns

end JyQipai.Withdraw
