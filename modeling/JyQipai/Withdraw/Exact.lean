import JyQipai.Withdraw.Moves

/-!
# Withdrawals in runs

In a run in which orders are failed only after their money was deducted, every order
moves its own money and no other.  A final status stays in every run.
-/

namespace JyQipai.Withdraw

open JyQipai.Lib

/-! ## Final statuses -/

structure Neat (s : State) : Prop where
  nodup : (s.withdrawDatas.map (·.id)).Nodup
  old : ∀ o ∈ s.withdrawDatas, s.Old o.id

def Stays (s t : State) : Prop :=
  Neat s → Neat t ∧ ∀ o ∈ s.withdrawDatas, Final o.status → o ∈ t.withdrawDatas

section Stays

variable {s t u : State}

theorem Stays.trans (h : Stays s t) (h' : Stays t u) : Stays s u := by
  intro hs
  obtain ⟨ht, hst⟩ := h hs
  obtain ⟨hu, htu⟩ := h' ht
  exact ⟨hu, fun o ho hf => htu o (hst o ho hf) hf⟩

theorem stays_of_eq (horders : t.withdrawDatas = s.withdrawDatas)
    (hold : ∀ id, s.Old id → t.Old id) : Stays s t := by
  intro hs
  refine ⟨⟨horders ▸ hs.nodup, fun o ho => ?_⟩, fun o ho _ => horders ▸ ho⟩
  exact hold o.id (hs.old o (horders ▸ ho))

theorem Same.stays (h : Same s t) : Stays s t := stays_of_eq h.orders h.old

theorem stays_insertOrder (s : State) (random : String)
    (assetType : Option AssetManage.AssetType) (money : Int) :
    Stays s (s.insertOrder random assetType money) := by
  intro hs
  have hne : ∀ o ∈ s.withdrawDatas, o.id ≠ ⟨s.today, s.nextIndex, random⟩ := by
    intro o ho heq
    have hold := hs.old o ho
    rw [heq] at hold
    exact not_old_next s random hold
  refine ⟨⟨?_, fun o ho => ?_⟩, fun o ho _ => ?_⟩
  · unfold State.insertOrder
    rw [List.map_cons, List.nodup_cons]
    refine ⟨fun hmem => ?_, hs.nodup.sublist (List.filter_sublist.map _)⟩
    obtain ⟨o, ho, hid⟩ := List.mem_map.mp hmem
    exact hne o (List.mem_filter.mp ho).1 hid
  · rcases List.mem_cons.mp ho with rfl | ho
    · exact old_next s random assetType money
    · exact old_insertOrder (hs.old o (List.mem_filter.mp ho).1)
  · refine List.mem_cons_of_mem _ (List.mem_filter.mpr ⟨ho, ?_⟩)
    simpa using hne o ho

theorem stays_setStatus {o : Order} (ho : o ∈ s.withdrawDatas) (hrun : ¬ Final o.status)
    (st : Status) : Stays s (s.setStatus o st) := by
  intro hs
  have hold : ∀ id, s.Old id → (s.setStatus o st).Old id := by
    intro id h
    unfold State.setStatus State.Old
    dsimp only
    split <;> exact h
  refine ⟨⟨?_, fun x hx => ?_⟩, fun x hx hf => ?_⟩
  · rw [ids_setStatus]
    exact hs.nodup
  · rcases mem_setStatus.mp hx with ⟨hx, -⟩ | ⟨y, hy, -, rfl⟩
    · exact hold _ (hs.old x hx)
    · exact hold y.id (hs.old y hy)
  · refine mem_setStatus.mpr (.inl ⟨hx, fun heq => ?_⟩)
    obtain rfl := List.inj_on_of_nodup_map hs.nodup hx ho heq
    exact hrun hf

theorem stays_locks (s : State) (cashLock moneyLock : Bool) :
    Stays s { s with
      withdrawCashLock := cashLock
      withdrawMoneyLock := moneyLock } := (same_locks s cashLock moneyLock).stays

theorem stays_requestWeb (id : OrderId) (s : State) :
    (State.requestWeb id s).Within Stays s := by
  refine ⟨stays_locks s _ _, fun a u => ?_⟩
  cases a <;> exact stays_locks u _ _

theorem stays_requestOrder (money : Int) (s : State) :
    (State.requestOrder money s).Within Stays s := by
  refine ⟨stays_locks s _ _, fun a u => ?_⟩
  cases a with
  | go random =>
      dsimp only
      rcases createWithdrawId_cases u random money with ⟨code, -, heq⟩ | ⟨-, heq⟩
      · rw [heq]
        exact ⟨stays_locks u _ _, fun _ v => stays_locks v _ _⟩
      · rw [heq]
        exact ⟨stays_insertOrder u random _ money, fun _ v => stays_requestWeb _ v⟩
  | _ => exact stays_locks u _ _

theorem stays_withdrawMoney (money : Int) (s : State) :
    (State.withdrawMoney money s).Within Stays s := by
  unfold State.withdrawMoney
  split
  · exact stays_locks s _ _
  · split
    · exact stays_locks s _ _
    · split
      · exact stays_locks s _ _
      · split
        · exact stays_locks s _ _
        · refine ⟨stays_locks s _ _, fun a u => ?_⟩
          cases a with
          | verifyData openid =>
              cases openid with
              | none => exact stays_locks u _ _
              | some openid => exact stays_requestOrder money u
          | _ => exact stays_locks u _ _

theorem stays_finishWithdraw (money code : Int) (id : Option OrderId) (s : State) :
    (State.finishWithdraw money code id s).Within Stays s := by
  unfold State.finishWithdraw
  split
  · exact ⟨stays_of_eq rfl fun _ h => h, fun _ u => stays_locks u _ _⟩
  · exact stays_of_eq rfl fun _ h => h

theorem stays_withdrawCash (cashType : Option Int) (s : State) :
    (s.withdrawCash cashType).Within Stays s := by
  unfold State.withdrawCash
  split
  · exact stays_locks s _ _
  · split
    · exact stays_locks s _ _
    · split
      · exact stays_locks s _ _
      · refine ⟨stays_locks s _ _, fun a u => ?_⟩
        cases a with
        | cashStatus status can =>
            dsimp only
            split
            · exact stays_locks u _ _
            · exact (stays_withdrawMoney can u).bind .trans fun r t =>
                stays_finishWithdraw can r.1 r.2 t
        | _ => exact stays_locks u _ _

theorem stays_handle (e : Event) (s : State) : (handle e s).Within Stays s := by
  cases e with
  | withdrawCash cashType => exact stays_withdrawCash cashType s
  | changeCash value => exact (same_changeCash s value).stays
  | changeAsset value => exact (same_changeAsset s value).stays
  | deliver => exact (same_deliver s).stays
  | onChange value => exact stays_of_eq rfl fun _ h => h
  | config forbid url => exact stays_of_eq rfl fun _ h => h
  | days n => exact (same_days s n).stays
  | changeWithdrawStatus id st =>
      have hsame : Stays s s := stays_locks s _ _
      change (State.changeWithdrawStatus id st s).Within Stays s
      unfold State.changeWithdrawStatus
      split
      · exact hsame
      · next o ho =>
        split
        · exact hsame
        · exact hsame
        · split
          · exact hsame
          · next hrun =>
            split
            · exact hsame
            · exact stays_setStatus (List.mem_of_find?_eq_some ho) hrun _

end Stays

/-! ## Runs -/

structure Blank (s : State) : Prop where
  orders : s.withdrawDatas = []
  ledger : s.ledger = []
  mail : s.mail = []
  refused : s.refused = []

structure MovesOwn (s : State) (o : Order) : Prop where
  complete : o.status = .complete → s.booked o.id = {-o.money}
  fail : o.status = .fail → s.booked o.id = {-o.money, o.money}
  refused : o.id ∈ s.refused → s.booked o.id = 0
  refund_once : (s.booked o.id).count o.money ≤ 1
  refund_paid : o.money ∈ s.booked o.id → -o.money ∈ s.booked o.id

theorem Exact.movesOwn {s : State} {o : Order} (h : Exact s o) : MovesOwn s o := by
  have hne : o.money ≠ -o.money := by
    have := h.pos
    omega
  have hbooked : s.booked o.id = 0 ∨ s.booked o.id = {-o.money} ∨
      s.booked o.id = {-o.money, o.money} := by
    by_cases hf : Final o.status
    · rcases hf with hf | hf
      · exact .inr (.inl (h.complete hf))
      · exact .inr (.inr (h.fail hf))
    · rcases h.running hf with hz | hp
      · exact .inl hz
      · exact .inr (.inl hp)
  refine ⟨h.complete, h.fail, h.refused, ?_, ?_⟩
  · rcases hbooked with hb | hb | hb <;> rw [hb]
    · simp
    · rw [Multiset.count_singleton, if_neg hne]
      exact Nat.zero_le 1
    · rw [Multiset.insert_eq_cons, Multiset.count_cons_of_ne hne,
        Multiset.count_singleton_self]
  · rcases hbooked with hb | hb | hb <;> rw [hb]
    · simp
    · simp
    · simp

abbrev Careful : World State Ask Answer Int → Input Event Answer → Prop :=
  World.Admits Valid AfterPayment fun _ => True

abbrev Any : World State Ask Answer Int → Input Event Answer → Prop :=
  World.Admits Valid (fun _ _ => True) fun _ => True

theorem Blank.booked {s : State} (h : Blank s) (id : OrderId) : s.booked id = 0 := by
  unfold State.booked
  rw [h.ledger, h.mail]
  rfl

theorem Blank.sound {s : State} (h : Blank s) : Sound s.playerCash s where
  nodup := by
    rw [h.orders]
    exact List.nodup_nil
  old o ho := by simp [h.orders] at ho
  booked_old id hid := absurd (h.booked id) hid
  refused_old id hid := by simp [h.refused] at hid
  exact o ho := by simp [h.orders] at ho
  playerCash := by simp [h.ledger]

theorem sound_of_reach {s : State} (h : Blank s) {w : World State Ask Answer Int}
    (hw : Reach (World.step handle) Careful ⟨s, []⟩ w) : Sound s.playerCash w.state := by
  have hstart : World.Owned (owning s.playerCash)
      (⟨s, []⟩ : World State Ask Answer Int) :=
    ⟨trivial, [], ⟨h.sound, Multiset.nodup_zero, by simp⟩, .nil⟩
  have howned : World.Owned (owning s.playerCash) w :=
    Reach.invariant hstart (fun w i hw hi => hw.step (fun s e _ he => owns_handle he) hi
      fun _ _ _ _ _ _ _ _ _ _ => trivial) hw
  obtain ⟨-, gs, hholds, -⟩ := howned
  exact hholds.1

theorem final_of_reach {s : State} (h : Blank s) {v w : World State Ask Answer Int}
    (hv : Reach (World.step handle) Any ⟨s, []⟩ v) (hw : Reach (World.step handle) Any v w)
    {o : Order} (ho : o ∈ v.state.withdrawDatas) (hf : Final o.status) :
    o ∈ w.state.withdrawDatas := by
  have hstays : ∀ s : State, Stays s s := fun s => stays_locks s _ _
  have hstart := World.AllWithin.reach hstays .trans stays_handle (by simp [World.AllWithin]) hv
  have hrest := World.AllWithin.reach hstays .trans stays_handle hstart.1 hw
  have hneat := (hstart.2 ⟨h.sound.nodup, h.sound.old⟩).1
  exact (hrest.2 hneat).2 o ho hf

/-- In a run in which orders are failed only after their money was deducted, each order
moves what its status says, and the player's cash is the sum of what was booked.  In
every run final statuses stay. -/
theorem withdrawal_moves_own_money {s : State} (h : Blank s) :
    (∀ w : World State Ask Answer Int, Reach (World.step handle) Careful ⟨s, []⟩ w →
      (∀ o ∈ w.state.withdrawDatas, MovesOwn w.state o) ∧
        w.state.playerCash = s.playerCash + (w.state.ledger.map (·.value)).sum) ∧
      ∀ v w : World State Ask Answer Int, Reach (World.step handle) Any ⟨s, []⟩ v →
        Reach (World.step handle) Any v w → ∀ o ∈ v.state.withdrawDatas,
          Final o.status → o ∈ w.state.withdrawDatas := by
  refine ⟨fun w hw => ?_, fun v w hv hw o ho hf => final_of_reach h hv hw ho hf⟩
  have hsound := sound_of_reach h hw
  exact ⟨fun o ho => (hsound.exact o ho).movesOwn, hsound.playerCash⟩

/-! ## An order that is refused and refunded -/

def cashier : State where
  cash := some 500
  playerCash := 500

theorem withdrawal_moves_own_money_cashier :
    (∀ w : World State Ask Answer Int, Reach (World.step handle) Careful ⟨cashier, []⟩ w →
      (∀ o ∈ w.state.withdrawDatas, MovesOwn w.state o) ∧
        w.state.playerCash = cashier.playerCash + (w.state.ledger.map (·.value)).sum) ∧
      ∀ v w : World State Ask Answer Int, Reach (World.step handle) Any ⟨cashier, []⟩ v →
        Reach (World.step handle) Any v w → ∀ o ∈ v.state.withdrawDatas,
          Final o.status → o ∈ w.state.withdrawDatas :=
  withdrawal_moves_own_money ⟨rfl, rfl, rfl, rfl⟩

def refusedAndRefunded : List (Input Event Answer) :=
  [.command (.withdrawCash (some 1)), .answer 0 (.cashStatus 0 500),
    .answer 0 (.verifyData "openid"), .answer 0 (.go "abcde"), .answer 0 (.go ""),
    .answer 0 (.web false), .command (.changeWithdrawStatus ⟨0, 1, "abcde"⟩ (some .fail))]

/-- The order was refused, and its money is refunded without having been deducted. -/
theorem refunded_unpaid :
    Reach (World.step handle) Any ⟨cashier, []⟩
        (run (World.step handle) ⟨cashier, []⟩ refusedAndRefunded) ∧
      (run (World.step handle) ⟨cashier, []⟩ refusedAndRefunded).state.refused =
        [⟨0, 1, "abcde"⟩] ∧
      (run (World.step handle) ⟨cashier, []⟩ refusedAndRefunded).state.withdrawDatas =
        [⟨⟨0, 1, "abcde"⟩, 500, some "cash", .fail⟩] ∧
      (run (World.step handle) ⟨cashier, []⟩ refusedAndRefunded).state.booked
        ⟨0, 1, "abcde"⟩ = {500} ∧
      (run (World.step handle) ⟨cashier, []⟩ refusedAndRefunded).state.playerCash = 1000 := by
  refine ⟨reach_run ?_, by decide +kernel, by decide +kernel, by decide +kernel,
    by decide +kernel⟩
  decide +kernel

end JyQipai.Withdraw
