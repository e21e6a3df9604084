import JyQipai.AssetManage.Books

/-!
# The account and the database

Locked amounts are gone from the account and still in the database, staged ones are
in the account and not yet in the database, and every other change is sent to it or
comes from it.
-/

namespace JyQipai.AssetManage

open JyQipai.Lib

def amountOf (l : List Asset) (t : AssetType) : Int :=
  (l.map fun a => if a.assetType = t then a.value else 0).sum

def sentOf (l : List Sent) (t : AssetType) : Int :=
  (l.map fun
    | .changeAsset u n => if u = t then n else 0
    | .changeObject .. => 0).sum

/-- A coin-like asset: a number in `asset_datas`, and neither an object nor a
dress. -/
structure CoinLike (s : Account) (t : AssetType) : Prop where
  object : isObjectAsset t = false
  dress : isDressAsset t = false
  jipaiqi : t ≠ "jipaiqi"
  num : s.playerObjectNum t = none

namespace Books

/-- The operation is about coin-like assets.  Where `skynet.fail` raises errors, the
conditions of a lock have the known types; and the database reports plain changes. -/
def OnCoins (b : Books) : Event → Prop
  | .assetLock l => ∀ a ∈ l, CoinLike b.account a.assetType ∧
      (b.account.debug → a.condiType ≠ none ∧ a.condiType ≠ some .notEqual)
  | .assetStaging l => ∀ a ∈ l, CoinLike b.account a.assetType
  | .changeAssetMulti saveDb l => ∀ c ∈ l, ∃ a objectId, c = .amount a objectId ∧
      CoinLike b.account a.assetType ∧ (saveDb = false → a.condiType = none)
  | _ => True

def lockedOf (b : Books) (t : AssetType) : Int :=
  (b.locks.map fun k => consumed k.assets t).sum

def stagedOf (b : Books) (t : AssetType) : Int :=
  (b.staged.map fun e => amountOf e.2 t).sum

def balance (b : Books) (t : AssetType) : Int :=
  (b.account.assetDatas t).getD 0 + b.lockedOf t - b.stagedOf t -
    sentOf b.account.sent t - amountOf b.received t

structure Kept (b : Books) : Prop extends LocksKept b where
  coins : ∀ k ∈ b.locks, ∀ a ∈ k.assets, isObjectAsset a.assetType = false
  staging : ∀ id l, b.account.assetStagingData id = some l ↔ (id, l) ∈ b.staged
  stagingIds : (b.staged.map (·.1)).Nodup
  stagingCount : ∀ e ∈ b.staged, e.1 ≤ b.account.assetStagingDataCount

end Books

/-! ## What is sent -/

@[simp] theorem amountOf_nil (t : AssetType) : amountOf [] t = 0 := rfl

theorem amountOf_cons (a : Asset) (l : List Asset) (t : AssetType) :
    amountOf (a :: l) t = (if a.assetType = t then a.value else 0) + amountOf l t := rfl

theorem amountOf_append (l l' : List Asset) (t : AssetType) :
    amountOf (l ++ l') t = amountOf l t + amountOf l' t := by
  simp [amountOf]

theorem sentOf_send (s : Account) (u t : AssetType) (n : Int) :
    sentOf (s.send (.changeAsset u n)).sent t = sentOf s.sent t + if u = t then n else 0 := by
  simp [Account.send, sentOf]

namespace Account

variable {s t : Account} {l : List Asset} {x : AssetType}

structure Quiet (s t : Account) : Prop where
  sent : t.sent = s.sent
  staging : t.assetStagingData = s.assetStagingData
  count : t.assetStagingDataCount = s.assetStagingDataCount

theorem Quiet.refl (s : Account) : Quiet s s := ⟨rfl, rfl, rfl⟩

theorem Quiet.trans {u : Account} (h : Quiet s t) (h' : Quiet t u) : Quiet s u :=
  ⟨h'.sent.trans h.sent, h'.staging.trans h.staging, h'.count.trans h.count⟩

theorem quiet_setAsset (s : Account) (x : AssetType) (n : Int) : Quiet s (s.setAsset x n) :=
  ⟨rfl, rfl, rfl⟩

theorem quiet_setNum (s : Account) (x : AssetType) (n : Int) : Quiet s (s.setNum x n) :=
  ⟨rfl, rfl, rfl⟩

theorem quiet_addAsset (s : Account) (x : AssetType) (n : Int) : Quiet s (s.addAsset x n) :=
  ⟨rfl, rfl, rfl⟩

theorem quiet_bind {α β : Type} {p : Prog Account Ask Answer α} {f : α → Op β}
    (hp : p.Within Quiet s) (hf : ∀ a t, (f a t).Within Quiet t) :
    (p.bind f).Within Quiet s :=
  hp.bind (fun h h' => h.trans h') hf

theorem quiet_step {α : Type} {p : Prog Account Ask Answer α} (h : Quiet s t)
    (hp : p.Within Quiet t) : p.Within Quiet s :=
  hp.of_step (fun h h' => h.trans h') h

theorem quiet_consumeLoop (l : List Asset) (d : Table) (s : Account) :
    (consumeLoop l d s).Within Quiet s := by
  induction l generalizing d s with
  | nil => exact Quiet.refl s
  | cons a l ih =>
      unfold consumeLoop
      dsimp only
      split
      · exact Quiet.refl s
      · split
        · split
          · exact Quiet.refl s
          · split
            · split
              · exact Quiet.refl s
              · exact quiet_step (quiet_setNum s _ _) (ih _ _)
            · exact quiet_step (quiet_setAsset s _ _) (ih _ _)
        · split
          · exact Quiet.refl s
          · exact ih d s
        · split
          · exact Quiet.refl s
          · exact ih d s
        · split
          · exact Quiet.refl s
          · exact ih d s
        · unfold fail
          split
          · exact Quiet.refl s
          · exact ih d s

theorem quiet_giveBack (es : List (AssetType × Int)) (s : Account) :
    (giveBack es s).Within Quiet s := by
  induction es generalizing s with
  | nil => exact Quiet.refl s
  | cons e es ih =>
      unfold giveBack
      split
      · split
        · exact Quiet.refl s
        · exact quiet_step (quiet_setNum s _ _) (ih _)
      · exact quiet_step (quiet_addAsset s _ _) (ih _)

theorem quiet_assetVerifyConsume (l : List Asset) (s : Account) :
    (assetVerifyConsume l s).Within Quiet s := by
  refine quiet_bind (quiet_consumeLoop l .empty s) fun d t => ?_
  dsimp only
  split
  · exact quiet_bind (quiet_giveBack _ t) fun _ u => Quiet.refl u
  · exact Quiet.refl t

theorem quiet_giveBackAll (l : List Asset) (s : Account) : Quiet s (giveBackAll l s) := by
  induction l generalizing s with
  | nil => exact .refl s
  | cons a l ih =>
      rw [giveBackAll]
      refine Quiet.trans ?_ (ih _)
      split
      · exact quiet_addAsset s _ _
      · exact .refl s

theorem quiet_addAll (l : List Asset) (s : Account) : Quiet s (addAll l s) := by
  induction l generalizing s with
  | nil => exact .refl s
  | cons a l ih => exact (quiet_addAsset s _ _).trans (ih _)

theorem addAsset_getD (s : Account) (t x : AssetType) (n : Int) :
    ((s.addAsset t n).assetDatas x).getD 0 =
      (s.assetDatas x).getD 0 + if t = x then n else 0 := by
  by_cases h : t = x
  · subst h
    simp [addAsset, setAsset]
  · simp [addAsset, setAsset_ne _ _ (Ne.symm h), h]

theorem addAll_getD (l : List Asset) (s : Account) (x : AssetType) :
    ((addAll l s).assetDatas x).getD 0 = (s.assetDatas x).getD 0 + amountOf l x := by
  induction l generalizing s with
  | nil => simp [addAll]
  | cons a l ih =>
      rw [addAll, ih, addAsset_getD, amountOf_cons]
      ring

theorem commitAll_coins (hl : ∀ a ∈ l, isObjectAsset a.assetType = false)
    (objs : Option (List Obj)) (s : Account) :
    ∃ t, commitAll l objs s = .done t objs ∧ t.assetDatas = s.assetDatas ∧
      t.assetStagingData = s.assetStagingData ∧
      t.assetStagingDataCount = s.assetStagingDataCount ∧
      ∀ x, sentOf t.sent x = sentOf s.sent x - consumed l x := by
  induction l generalizing s with
  | nil => exact ⟨s, rfl, rfl, rfl, rfl, by simp⟩
  | cons a l ih =>
      have ih := fun s => ih (fun b hb => hl b (List.mem_cons_of_mem _ hb)) s
      rw [commitAll]
      by_cases hc : a.condiType = some .consume
      · rw [if_pos hc, if_neg (by simp [hl a List.mem_cons_self])]
        obtain ⟨t, ht, hdatas, hstag, hcount, hsent⟩ := ih
          (if a.value ≠ 0 then s.send (.changeAsset a.assetType (-a.value)) else s)
        refine ⟨t, ht, ?_, ?_, ?_, fun x => ?_⟩
        · rw [hdatas]
          split <;> rfl
        · rw [hstag]
          split <;> rfl
        · rw [hcount]
          split <;> rfl
        · rw [hsent, consumed_cons]
          split
          · rw [sentOf_send]
            simp only [hc, true_and]
            split <;> omega
          · next hzero =>
            have : a.value = 0 := by simpa using hzero
            simp [this]
      · rw [if_neg hc]
        obtain ⟨t, ht, hdatas, hstag, hcount, hsent⟩ := ih s
        refine ⟨t, ht, hdatas, hstag, hcount, fun x => ?_⟩
        rw [hsent, consumed_cons, if_neg (by simp [hc]), zero_add]

theorem changeAssetMulti_coins {l : List Change} (saveDb : Bool) (s : Account)
    (hl : ∀ c ∈ l, ∃ a objectId, c = .amount a objectId ∧
      CoinLike s a.assetType ∧ (saveDb = false → a.condiType = none)) :
    ∃ t, changeAssetMulti saveDb l s = .done t () ∧
      t.assetStagingData = s.assetStagingData ∧
      t.assetStagingDataCount = s.assetStagingDataCount ∧
      ∀ x, (t.assetDatas x).getD 0 - sentOf t.sent x =
        (s.assetDatas x).getD 0 - sentOf s.sent x +
          if saveDb then 0 else amountOf (reported l) x := by
  induction l generalizing s with
  | nil => exact ⟨s, rfl, rfl, rfl, by simp [reported]⟩
  | cons c l ih =>
      obtain ⟨a, objectId, rfl, hcoin, hplain⟩ := hl c List.mem_cons_self
      have htail := fun c hc => hl c (List.mem_cons_of_mem _ hc)
      by_cases hskip : ¬ (a.condiType = none ∨ a.condiType = some .consume) ∨ a.value = 0
      · obtain ⟨t, ht, hstag, hcount, hsum⟩ := ih s htail
        have hone : changeOne saveDb (.amount a objectId) s = .done s () := by
          rw [changeOne]
          rcases hskip with h | h
          · rw [if_neg h]
          · simp [h]
        refine ⟨t, by rw [changeAssetMulti, hone, Prog.bind, ht], hstag, hcount, fun x => ?_⟩
        rw [hsum, reported, amountOf_cons]
        cases saveDb with
        | true => rfl
        | false =>
            have hzero : a.value = 0 := hskip.resolve_left (by simp [hplain rfl])
            simp [hzero]
      · obtain ⟨hcondi, hzero⟩ := not_or.mp hskip
        have hcondi := not_not.mp hcondi
        have hone : changeOne saveDb (.amount a objectId) s =
            .done (save saveDb (.changeAsset a.assetType a.value)
              (s.addAsset a.assetType a.value)) () := by
          rw [changeOne, if_pos hcondi, if_neg (by simp [hzero, hcoin.dress]),
            if_neg hcoin.jipaiqi]
        obtain ⟨t, ht, hstag, hcount, hsum⟩ := ih (save saveDb
          (.changeAsset a.assetType a.value) (s.addAsset a.assetType a.value)) (by
            intro c hc
            obtain ⟨b, objectId, rfl, hb, hplain⟩ := htail c hc
            refine ⟨b, objectId, rfl, ⟨hb.object, hb.dress, hb.jipaiqi, ?_⟩, hplain⟩
            unfold save
            split <;> exact hb.num)
        refine ⟨t, by rw [changeAssetMulti, hone, Prog.bind, ht], ?_, ?_, fun x => ?_⟩
        · rw [hstag]
          unfold save
          split <;> rfl
        · rw [hcount]
          unfold save
          split <;> rfl
        · rw [hsum, reported, amountOf_cons]
          cases saveDb with
          | true =>
              simp only [save, if_true, sentOf_send]
              have := addAsset_getD s a.assetType x a.value
              simp only [send, addAsset, setAsset] at this ⊢
              omega
          | false =>
              have := addAsset_getD s a.assetType x a.value
              simp only [save, Bool.false_eq_true, if_false]
              simp only [addAsset, setAsset] at this ⊢
              omega

theorem myValue_of_num_none (h : s.playerObjectNum x = none) :
    s.myValue x = (s.assetDatas x).getD 0 := by
  cases hd : s.assetDatas x <;> simp [myValue, hd, h]

theorem consumeAll_getD
    (hx : consumes l x → isObjectAsset x = false ∧ s.playerObjectNum x = none) :
    ((s.consumeAll l).assetDatas x).getD 0 = (s.assetDatas x).getD 0 - consumed l x := by
  by_cases hc : consumes l x
  · obtain ⟨ho, hnum⟩ := hx hc
    have ho : ¬ isObjectAsset x := by simp [ho]
    obtain ⟨n, hn⟩ := Option.ne_none_iff_exists'.mp
      ((consumeAll_assetDatas_coin (s := s) ho l).1 (.inl hc))
    have hvalue := consumeAll_myValue_coin (s := s) ho l
    rw [myValue_of_some hn, myValue_of_num_none hnum] at hvalue
    rw [hn, Option.getD_some, hvalue]
  · rw [consumed_of_not_consumes hc, sub_zero]
    by_cases ho : isObjectAsset x
    · rw [consumeAll_assetDatas_object ho]
    · rw [(consumeAll_assetDatas_coin ho l).2 hc]

theorem failed_getD {pre post : List Asset} {a : Asset} {u : Account} {code : Int}
    (hpre : s.Passes pre) (ha : s.Unmet pre a)
    (hu : assetVerifyConsume (pre ++ a :: post) s = .done u code)
    (hx : consumes pre x → isObjectAsset x = false ∧ s.playerObjectNum x = none) :
    (u.assetDatas x).getD 0 = (s.assetDatas x).getD 0 := by
  obtain ⟨u', hu', hobj, hcoin⟩ := assetVerifyConsume_unmet post hpre ha
  rw [hu'] at hu
  cases hu
  by_cases ho : isObjectAsset x
  · rw [(hobj x ho).1]
  · by_cases hc : consumes pre x
    · rw [(hcoin x ho).2.1 hc, myValue_of_num_none (hx hc).2, Option.getD_some]
    · rw [(hcoin x ho).2.2 hc]

theorem get_foldl_add (l : List Asset) (d : Table) (x : AssetType) :
    (l.foldl (fun d a => d.add a.assetType a.value) d).get x = d.get x + amountOf l x := by
  induction l generalizing d with
  | nil => simp
  | cons a l ih =>
      rw [List.foldl_cons, ih, Amounts.get_add, amountOf_cons]
      ring

theorem mergeStaged_sent (ids : List Nat) (d : Table) (s : Account) :
    (mergeStaged ids d s).2.sent = s.sent ∧
      (mergeStaged ids d s).2.assetStagingDataCount = s.assetStagingDataCount := by
  induction ids generalizing d s with
  | nil => exact ⟨rfl, rfl⟩
  | cons id ids ih =>
      rw [mergeStaged]
      split
      · exact ih _ _
      · exact ih d s

theorem mergeStaged_staged (staged : List (Nat × List Asset)) (ids : List Nat) (d : Table)
    (s : Account) (hstag : ∀ id l, s.assetStagingData id = some l ↔ (id, l) ∈ staged)
    (hnodup : (staged.map (·.1)).Nodup) :
    (∀ id l, (mergeStaged ids d s).2.assetStagingData id = some l ↔
      (id, l) ∈ staged.filter (·.1 ∉ ids)) ∧
    ∀ x, (mergeStaged ids d s).1.get x +
      ((staged.filter (·.1 ∉ ids)).map fun e => amountOf e.2 x).sum =
        d.get x + (staged.map fun e => amountOf e.2 x).sum := by
  induction ids generalizing d s staged with
  | nil => simp [mergeStaged, hstag]
  | cons id ids ih =>
      rw [mergeStaged]
      have hfilter : staged.filter (·.1 ∉ id :: ids) =
          (staged.filter (·.1 ≠ id)).filter (·.1 ∉ ids) := by
        rw [List.filter_filter]
        refine List.filter_congr fun e _ => ?_
        simp [Bool.and_comm]
      rw [hfilter]
      cases hl : s.assetStagingData id with
      | some l =>
          have hmem := (hstag id l).mp hl
          obtain ⟨hst, hsum⟩ := ih (staged.filter (·.1 ≠ id))
            (l.foldl (fun d a => d.add a.assetType a.value) d)
            { s with assetStagingData := Function.update s.assetStagingData id none } (by
              intro id' l'
              by_cases hid : id' = id
              · subst hid
                simp
              · simp [hstag, hid])
            (hnodup.sublist (List.filter_sublist.map _))
          refine ⟨hst, fun x => ?_⟩
          have hout := sum_map_filter_ne hnodup hmem fun e => amountOf e.2 x
          rw [hsum, get_foldl_add]
          dsimp only at hout
          omega
      | none =>
          have hkeep : staged.filter (·.1 ≠ id) = staged := by
            rw [List.filter_eq_self]
            rintro ⟨i, l⟩ he
            have : i ≠ id := by
              rintro rfl
              rw [(hstag i l).mpr he] at hl
              cases hl
            simpa using this
          rw [hkeep]
          exact ih staged d s hstag hnodup

theorem sendAll_spec (es : List (AssetType × Int)) (s : Account) (x : AssetType) :
    (sendAll es s).assetStagingData = s.assetStagingData ∧
      (sendAll es s).assetStagingDataCount = s.assetStagingDataCount ∧
      sentOf (sendAll es s).sent x =
        sentOf s.sent x + (es.map fun e => if e.1 = x then e.2 else 0).sum := by
  induction es generalizing s with
  | nil => simp [sendAll]
  | cons e es ih =>
      rw [sendAll]
      obtain ⟨hstag, hcount, hsent⟩ :=
        ih (if e.2 ≠ 0 then s.send (.changeAsset e.1 e.2) else s)
      refine ⟨?_, ?_, ?_⟩
      · rw [hstag]
        split <;> rfl
      · rw [hcount]
        split <;> rfl
      · rw [hsent, List.map_cons, List.sum_cons]
        split
        · rw [sentOf_send]
          ring
        · next hzero =>
          have : e.2 = 0 := by simpa using hzero
          simp [this]

end Account

namespace Books

variable {b : Books} {e : Event}

theorem kept_start (s : Account) : Kept (start s) where
  toLocksKept := locksKept_start s
  coins := by simp [start]
  staging _ _ := by simp [start]
  stagingIds := List.nodup_nil
  stagingCount := by simp [start]

theorem Kept.of_quiet (h : b.Kept) {b' : Books} (hlocks : b'.LocksKept)
    (hcoins : ∀ k ∈ b'.locks, k ∈ b.locks ∨ ∀ a ∈ k.assets, isObjectAsset a.assetType = false)
    (hstag : b'.account.assetStagingData = b.account.assetStagingData)
    (hcount : b'.account.assetStagingDataCount = b.account.assetStagingDataCount)
    (hstaged : b'.staged = b.staged) : b'.Kept where
  toLocksKept := hlocks
  coins k hk := (hcoins k hk).elim (h.coins k) id
  staging := by
    rw [hstag, hstaged]
    exact h.staging
  stagingIds := hstaged ▸ h.stagingIds
  stagingCount := by
    rw [hcount, hstaged]
    exact h.stagingCount

theorem step_assetLock {l : List Asset} (hl : b.account.Passes l) :
    b.step (.assetLock l) = { b with
      account := (b.account.consumeAll l).takeLock l
      locks := ⟨b.account.createLockId, b.account.now, b.account.assetLockedDatasCount, l⟩ ::
        b.locks } := by
  rcases Account.assetLock_cases l b.account with ⟨-, heq⟩ | ⟨hno, -⟩
  · simp only [Books.step, heq]
  · exact absurd hl hno

theorem not_raises {l : List Asset} (h : b.OnCoins (.assetLock l)) {pre : List Asset}
    {a : Asset} (ha : a ∈ l) : ¬ b.account.Raises pre a := by
  obtain ⟨hcoin, hknown⟩ := h a ha
  rintro (hj | hr)
  · exact hcoin.jipaiqi hj
  · cases hc : a.condiType with
    | none =>
        simp only [hc] at hr
        exact (hknown hr).1 hc
    | some c =>
        cases c with
        | consume =>
            simp only [hc, hcoin.object] at hr
            exact Bool.false_ne_true hr.2.1
        | notEqual =>
            simp only [hc] at hr
            exact (hknown hr).2 hc
        | _ => simp [hc] at hr

theorem Kept.lock_step (h : b.Kept) {l : List Asset} (hf : b.Fresh (.assetLock l))
    (hcoin : b.OnCoins (.assetLock l)) (x : AssetType) :
    (b.step (.assetLock l)).Kept ∧ (b.step (.assetLock l)).balance x = b.balance x := by
  have hlocks := h.toLocksKept.step hf
  have hobj : ∀ a ∈ l, isObjectAsset a.assetType = false ∧
      b.account.playerObjectNum a.assetType = none :=
    fun a ha => ⟨(hcoin a ha).1.object, (hcoin a ha).1.num⟩
  have hquiet := Account.quiet_assetVerifyConsume l b.account
  rcases Account.passes_or_stops b.account l with hl | ⟨pre, a, post, rfl, hpre, ha | ha⟩
  · rw [Account.assetVerifyConsume_passes hl] at hquiet
    rw [step_assetLock hl] at hlocks ⊢
    have hquiet : Account.Quiet b.account (b.account.consumeAll l) := hquiet
    refine ⟨h.of_quiet hlocks (fun k hk => ?_) hquiet.staging hquiet.count rfl, ?_⟩
    · rcases List.mem_cons.mp hk with rfl | hk
      · exact .inr fun a ha => (hobj a ha).1
      · exact .inl hk
    · have hx := Account.consumeAll_getD (s := b.account) (l := l) (x := x) (by
        rintro ⟨a, ha, -, rfl⟩
        exact hobj a ha)
      simp only [balance, lockedOf, stagedOf, Account.takeLock, List.map_cons, List.sum_cons,
        hx, hquiet.sent]
      ring
  · obtain ⟨u, hu, -⟩ := Account.assetVerifyConsume_unmet post hpre ha
    rw [hu] at hquiet
    have hquiet : Account.Quiet b.account u := hquiet
    have hstep : b.step (.assetLock (pre ++ a :: post)) = { b with account := u } := by
      have hpos := Account.assetError_pos a.assetType
      simp only [Books.step, Account.assetLock, hu, Prog.bind, if_pos hpos]
      split
      · next hcode =>
        simp only [Prog.done.injEq, Prod.mk.injEq] at hcode
        omega
      · rfl
    have hx := Account.failed_getD (x := x) hpre ha hu (by
      rintro ⟨a, ha, -, rfl⟩
      exact hobj a (List.mem_append_left _ ha))
    rw [hstep] at hlocks ⊢
    refine ⟨h.of_quiet hlocks (fun k hk => .inl hk) hquiet.staging hquiet.count rfl, ?_⟩
    simp only [balance, lockedOf, stagedOf, hx, hquiet.sent]
  · exact absurd ha (not_raises hcoin (by simp))

theorem Kept.lockedOf_drop (h : b.Kept) {id : Int} {l : List Asset}
    (hl : b.account.assetLockedDatas id = some l) (x : AssetType) :
    ((b.locks.filter (·.id ≠ id)).map fun k => consumed k.assets x).sum + consumed l x =
      b.lockedOf x := by
  obtain ⟨k, hk, rfl, rfl⟩ := (h.stored id l).mp hl
  exact sum_map_filter_ne h.nodup hk fun k => consumed k.assets x

theorem Kept.coins_of_locked (h : b.Kept) {id : Int} {l : List Asset}
    (hl : b.account.assetLockedDatas id = some l) :
    ∀ a ∈ l, isObjectAsset a.assetType = false := by
  obtain ⟨k, hk, -, rfl⟩ := (h.stored id l).mp hl
  exact h.coins k hk

theorem Kept.commit_step (h : b.Kept) (id : Int) (x : AssetType) :
    (b.step (.assetCommit id)).Kept ∧
      (b.step (.assetCommit id)).balance x = b.balance x := by
  have hlocks := h.toLocksKept.step (e := .assetCommit id) trivial
  cases hl : b.account.assetLockedDatas id with
  | none =>
      have heq : b.step (.assetCommit id) = b := by
        simp [Books.step, Account.assetCommit, hl, stopState]
      rw [heq]
      exact ⟨h, rfl⟩
  | some l =>
      obtain ⟨t, ht, hdatas, hstag, hcount, hsent⟩ :=
        Account.commitAll_coins (h.coins_of_locked hl) none b.account
      have heq : b.step (.assetCommit id) = { b with
          account := t.dropLock id
          locks := b.locks.filter (·.id ≠ id) } := by
        simp [Books.step, Account.assetCommit, hl, ht, Prog.bind]
      rw [heq] at hlocks ⊢
      refine ⟨h.of_quiet hlocks (fun k hk => .inl (List.mem_filter.mp hk).1) hstag hcount rfl,
        ?_⟩
      have hdrop := h.lockedOf_drop hl x
      simp only [balance, lockedOf, stagedOf, Account.dropLock, hdatas, hsent] at hdrop ⊢
      omega

theorem Kept.unlock_step (h : b.Kept) (id : Int) (x : AssetType) :
    (b.step (.assetUnlock id)).Kept ∧
      (b.step (.assetUnlock id)).balance x = b.balance x := by
  have hlocks := h.toLocksKept.step (e := .assetUnlock id) trivial
  cases hl : b.account.assetLockedDatas id with
  | none =>
      have heq : b.step (.assetUnlock id) = b := by
        simp [Books.step, Account.assetUnlock, hl, stopState]
      rw [heq]
      exact ⟨h, rfl⟩
  | some l =>
      have heq : b.step (.assetUnlock id) = { b with
          account := (Account.giveBackAll l b.account).dropLock id
          locks := b.locks.filter (·.id ≠ id) } := by
        simp [Books.step, Account.assetUnlock, hl]
      have hquiet := Account.quiet_giveBackAll l b.account
      rw [heq] at hlocks ⊢
      refine ⟨h.of_quiet hlocks (fun k hk => .inl (List.mem_filter.mp hk).1) hquiet.staging
        hquiet.count rfl, ?_⟩
      have hdrop := h.lockedOf_drop hl x
      have hback : ((Account.giveBackAll l b.account).assetDatas x).getD 0 =
          (b.account.assetDatas x).getD 0 + consumed l x := by
        by_cases hc : consumes l x
        · rw [(Account.giveBackAll_datas l b.account).1 hc, Option.getD_some]
        · rw [(Account.giveBackAll_datas l b.account).2 hc, Account.consumed_of_not_consumes hc,
            add_zero]
      simp only [balance, lockedOf, stagedOf, Account.dropLock, hback, hquiet.sent] at hdrop ⊢
      omega

theorem Kept.staging_step (h : b.Kept) (l : List Asset) (x : AssetType) :
    (b.step (.assetStaging l)).Kept ∧
      (b.step (.assetStaging l)).balance x = b.balance x := by
  have hlocks := h.toLocksKept.step (e := .assetStaging l) trivial
  have hquiet := Account.quiet_addAll l
    { b.account with assetStagingDataCount := b.account.assetStagingDataCount + 1 }
  have hnew : ∀ e ∈ b.staged, e.1 ≠ b.account.assetStagingDataCount + 1 := by
    intro e he heq
    have := h.stagingCount e he
    omega
  have hstag : (b.step (.assetStaging l)).account.assetStagingData = Function.update
      b.account.assetStagingData (b.account.assetStagingDataCount + 1) (some l) :=
    congrArg (Function.update · _ _) hquiet.staging
  have hnext : (b.step (.assetStaging l)).staged =
      (b.account.assetStagingDataCount + 1, l) :: b.staged := rfl
  refine ⟨⟨hlocks, h.coins, ?_, ?_, ?_⟩, ?_⟩
  · intro id l'
    rw [hstag, hnext, List.mem_cons]
    by_cases hid : id = b.account.assetStagingDataCount + 1
    · subst hid
      have hno : (b.account.assetStagingDataCount + 1, l') ∉ b.staged :=
        fun hmem => hnew _ hmem rfl
      simp [hno, eq_comm]
    · rw [Function.update_of_ne hid, h.staging]
      simp [hid]
  · rw [hnext, List.map_cons, List.nodup_cons]
    refine ⟨?_, h.stagingIds⟩
    intro hmem
    obtain ⟨e, he, heq⟩ := List.mem_map.mp hmem
    exact hnew e he heq
  · intro e he
    rw [hnext] at he
    have hcount : (b.step (.assetStaging l)).account.assetStagingDataCount =
        b.account.assetStagingDataCount + 1 := hquiet.count
    rw [hcount]
    rcases List.mem_cons.mp he with rfl | he
    · exact le_rfl
    · have := h.stagingCount e he
      omega
  · have hdatas : ((b.step (.assetStaging l)).account.assetDatas x).getD 0 =
        (b.account.assetDatas x).getD 0 + amountOf l x := Account.addAll_getD l _ x
    have hsent : (b.step (.assetStaging l)).account.sent = b.account.sent := hquiet.sent
    have hstaged : (b.step (.assetStaging l)).stagedOf x = amountOf l x + b.stagedOf x := rfl
    have hlocked : (b.step (.assetStaging l)).lockedOf x = b.lockedOf x := rfl
    have hreceived : (b.step (.assetStaging l)).received = b.received := rfl
    rw [balance, balance, hdatas, hsent, hstaged, hlocked, hreceived]
    ring

theorem Kept.merge_step (h : b.Kept) (ids : List Nat) (x : AssetType) :
    (b.step (.assetMergeCommit ids)).Kept ∧
      (b.step (.assetMergeCommit ids)).balance x = b.balance x := by
  have hlocks := h.toLocksKept.step (e := .assetMergeCommit ids) trivial
  obtain ⟨hstag, hsum⟩ := Account.mergeStaged_staged _ ids .empty b.account h.staging
    h.stagingIds
  obtain ⟨hmerged, hcount⟩ := Account.mergeStaged_sent ids .empty b.account
  have hsend := Account.sendAll_spec (Account.mergeStaged ids .empty b.account).1.entries
    (Account.mergeStaged ids .empty b.account).2
  have hstep : (b.step (.assetMergeCommit ids)).account = Account.sendAll
      (Account.mergeStaged ids .empty b.account).1.entries
      (Account.mergeStaged ids .empty b.account).2 := rfl
  have hnext : (b.step (.assetMergeCommit ids)).staged = b.staged.filter (·.1 ∉ ids) := rfl
  refine ⟨⟨hlocks, h.coins, ?_, ?_, ?_⟩, ?_⟩
  · rw [hstep, hnext, (hsend x).1]
    exact hstag
  · exact h.stagingIds.sublist (List.filter_sublist.map _)
  · intro e he
    rw [hstep, (hsend x).2.1, hcount]
    exact h.stagingCount e (List.mem_filter.mp he).1
  · have hdatas : (b.step (.assetMergeCommit ids)).account.assetDatas x =
        b.account.assetDatas x :=
      (Account.within_assetMergeCommit (A := fun _ => False) ids b.account).datas x id
    have hsent : sentOf (b.step (.assetMergeCommit ids)).account.sent x =
        sentOf b.account.sent x + (Account.mergeStaged ids .empty b.account).1.get x := by
      rw [hstep, (hsend x).2.2, hmerged, Amounts.sum_entries]
    have hlocked : (b.step (.assetMergeCommit ids)).lockedOf x = b.lockedOf x := rfl
    have hreceived : (b.step (.assetMergeCommit ids)).received = b.received := rfl
    have hx := hsum x
    rw [balance, balance, hdatas, hsent, hlocked, hreceived]
    simp only [stagedOf, hnext, Amounts.get_empty, zero_add] at hx ⊢
    omega

theorem Kept.change_step (h : b.Kept) {saveDb : Bool} {l : List Change}
    (hcoin : b.OnCoins (.changeAssetMulti saveDb l)) (x : AssetType) :
    (b.step (.changeAssetMulti saveDb l)).Kept ∧
      (b.step (.changeAssetMulti saveDb l)).balance x = b.balance x := by
  have hlocks := h.toLocksKept.step (e := .changeAssetMulti saveDb l) trivial
  obtain ⟨t, ht, hstag, hcount, hsum⟩ :=
    Account.changeAssetMulti_coins saveDb b.account hcoin
  have hstep : b.step (.changeAssetMulti saveDb l) = { b with
      account := t
      received := if saveDb then b.received else b.received ++ reported l } := by
    simp only [Books.step, ht, stopState]
  rw [hstep] at hlocks ⊢
  refine ⟨h.of_quiet hlocks (fun k hk => .inl hk) hstag hcount rfl, ?_⟩
  have hx := hsum x
  simp only [balance, lockedOf, stagedOf]
  cases saveDb with
  | true =>
      simp only [if_true] at hx ⊢
      omega
  | false =>
      simp only [Bool.false_eq_true, if_false, amountOf_append] at hx ⊢
      omega

theorem Kept.step (h : b.Kept) (he : b.Fresh e) (hcoin : b.OnCoins e) (x : AssetType) :
    (b.step e).Kept ∧ (b.step e).balance x = b.balance x := by
  cases e with
  | tick now =>
      exact ⟨h.of_quiet (h.toLocksKept.step he) (fun k hk => .inl hk) rfl rfl rfl, rfl⟩
  | assetLock l => exact h.lock_step he hcoin x
  | assetCommit id => exact h.commit_step id x
  | assetUnlock id => exact h.unlock_step id x
  | assetStaging l => exact h.staging_step l x
  | assetMergeCommit ids => exact h.merge_step ids x
  | changeAssetMulti saveDb l => exact h.change_step hcoin x

theorem Kept.run (h : b.Kept) {es : List Event}
    (hes : Allowed Books.step (fun b e => b.Fresh e ∧ b.OnCoins e) b es) (x : AssetType) :
    (Lib.run Books.step b es).balance x = b.balance x := by
  induction es generalizing b with
  | nil => rfl
  | cons e es ih =>
      obtain ⟨⟨hf, hcoin⟩, hes⟩ := hes
      obtain ⟨hkept, hbalance⟩ := h.step hf hcoin x
      exact (ih hkept hes).trans hbalance

/-- The account and the locked amounts, less the staged ones, are what was loaded and
all changes sent to the database or received from it. -/
theorem in_step_with_database {s : Account} {es : List Event}
    (hes : Allowed Books.step (fun b e => b.Fresh e ∧ b.OnCoins e) (start s) es)
    (x : AssetType) :
    ((Lib.run Books.step (start s) es).account.assetDatas x).getD 0 +
        (Lib.run Books.step (start s) es).lockedOf x -
        (Lib.run Books.step (start s) es).stagedOf x =
      (s.assetDatas x).getD 0 + sentOf (Lib.run Books.step (start s) es).account.sent x +
        amountOf (Lib.run Books.step (start s) es).received x := by
  have hbalance := (kept_start s).run hes x
  have hstart : (start s).balance x = (s.assetDatas x).getD 0 := by
    simp [balance, start, lockedOf, stagedOf, sentOf]
  rw [hstart, balance] at hbalance
  omega

def winAndPay : List Event :=
  [.changeAssetMulti true [.amount ⟨"jing_bi", 5, none⟩ none], .assetLock Account.coinFee,
    .assetCommit 0]

theorem in_step_winAndPay :
    ((Lib.run Books.step (start Account.tenCoins) winAndPay).account.assetDatas
        "jing_bi").getD 0 +
        (Lib.run Books.step (start Account.tenCoins) winAndPay).lockedOf "jing_bi" -
        (Lib.run Books.step (start Account.tenCoins) winAndPay).stagedOf "jing_bi" =
      10 + sentOf (Lib.run Books.step (start Account.tenCoins) winAndPay).account.sent
        "jing_bi" +
        amountOf (Lib.run Books.step (start Account.tenCoins) winAndPay).received
          "jing_bi" := by
  have hes : Allowed Books.step (fun b e => b.Fresh e ∧ b.OnCoins e) (start Account.tenCoins)
      winAndPay := by
    refine ⟨⟨trivial, ?_⟩, ⟨?_, ?_⟩, ⟨trivial, trivial⟩, trivial⟩
    · intro c hc
      obtain rfl := List.mem_singleton.mp hc
      exact ⟨_, _, rfl, ⟨by decide +kernel, by decide +kernel, by decide, by decide⟩,
        fun _ => rfl⟩
    · intro u id _ k hk
      have hnone : (Books.step (start Account.tenCoins) (.changeAssetMulti true
          [.amount ⟨"jing_bi", 5, none⟩ none])).locks = [] := rfl
      rw [hnone] at hk
      cases hk
    · intro a ha
      obtain rfl := List.mem_singleton.mp ha
      exact ⟨⟨by decide +kernel, by decide +kernel, by decide, by decide +kernel⟩,
        fun _ => ⟨by decide, by decide⟩⟩
  exact in_step_with_database hes "jing_bi"

end Books

end JyQipai.AssetManage
