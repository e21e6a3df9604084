import JyQipai.AssetManage.Service

/-!
# Unlocking

`asset_unlock` gives everything back to `asset_datas`.  That undoes the lock for
coin-like assets that have an entry there, whatever happens to other assets in
between; an object turns up in the wrong store.
-/

namespace JyQipai.AssetManage

open JyQipai.Lib

def Names (l : List Asset) (t : AssetType) : Prop := ∃ a ∈ l, a.assetType = t

namespace Account

structure SameAt (t : AssetType) (s u : Account) : Prop where
  datas : u.assetDatas t = s.assetDatas t
  num : u.playerObjectNum t = s.playerObjectNum t
  objectId : u.playerObjectId t = s.playerObjectId t

/-- The assets in `T` and the lock `id` are not touched. -/
structure Apart (T : AssetType → Prop) (id : Int) (s u : Account) : Prop where
  same : ∀ t, T t → SameAt t s u
  locked : u.assetLockedDatas id = s.assetLockedDatas id

def Touches (s : Account) (t : AssetType) : Event → Prop
  | .assetLock l => Names l t
  | .assetUnlock id => ∃ l, s.assetLockedDatas id = some l ∧ Names l t
  | .assetStaging l => Names l t
  | .changeAssetMulti _ l => ∃ c ∈ l, assetOf c = t
  | _ => False

/-- The operation is neither about an asset in `T` nor about the lock `id`. -/
structure LeavesAlone (T : AssetType → Prop) (id : Int) (s : Account) (e : Event) : Prop where
  assets : ∀ t, T t → ¬ s.Touches t e
  commit : e ≠ .assetCommit id
  unlock : e ≠ .assetUnlock id
  lock : ∀ l, e = .assetLock l → s.createLockId ≠ id

structure Restored (t : AssetType) (s w : Account) : Prop where
  datas : w.assetDatas t = s.assetDatas t
  num : w.playerObjectNum t = s.playerObjectNum t
  query : w.queryAssetByType t = s.queryAssetByType t

variable {T : AssetType → Prop} {id : Int} {s t u : Account} {l : List Asset}

/-! ## Other operations -/

theorem Apart.refl (s : Account) : Apart T id s s := ⟨fun _ _ => ⟨rfl, rfl, rfl⟩, rfl⟩

theorem Apart.trans (h : Apart T id s t) (h' : Apart T id t u) : Apart T id s u where
  same x hx := ⟨(h'.same x hx).datas.trans (h.same x hx).datas,
    (h'.same x hx).num.trans (h.same x hx).num,
    (h'.same x hx).objectId.trans (h.same x hx).objectId⟩
  locked := h'.locked.trans h.locked

theorem Alters.apart (h : Alters (fun x => ¬ T x) s t) : Apart T id s t where
  same x hx := ⟨h.datas x (not_not_intro hx), h.num x (not_not_intro hx),
    h.objectId x (not_not_intro hx)⟩
  locked := by rw [h.locked]

theorem within_apart {α : Type} {p : Prog Account Ask Answer α}
    (h : Within (fun x => ¬ T x) s p) : p.Within (Apart T id) s := by
  induction p generalizing s with
  | done t a => exact Alters.apart h
  | raised t => exact Alters.apart h
  | call t q resume ih => exact ⟨h.1.apart, fun a u => ih a u (h.2 a u)⟩

theorem apart_bind {α β : Type} {p : Prog Account Ask Answer α} {f : α → Op β}
    (hp : p.Within (Apart T id) s) (hf : ∀ a t, (f a t).Within (Apart T id) t) :
    (p.bind f).Within (Apart T id) s :=
  hp.bind (fun h h' => h.trans h') hf

theorem apart_dropLock {id' : Int} (h : id' ≠ id) (s : Account) :
    Apart T id s (s.dropLock id') :=
  ⟨fun _ _ => ⟨rfl, rfl, rfl⟩, Function.update_of_ne (Ne.symm h) _ _⟩

theorem within_handle {e : Event} (he : s.LeavesAlone T id e) :
    (handle e s).Within (Apart T id) s := by
  have hother : ∀ {l : List Asset}, (∀ t, T t → ¬ Names l t) →
      ∀ a ∈ l, ¬ T a.assetType := fun h a ha ht => h _ ht ⟨a, ha, rfl⟩
  cases e with
  | tick now => exact ⟨fun _ _ => ⟨rfl, rfl, rfl⟩, rfl⟩
  | assetLock l =>
      have hl := hother he.assets
      change ((assetLock l s).bind _).Within _ s
      rcases assetLock_cases l s with ⟨-, heq⟩ | ⟨-, u, hu, ⟨code, -, heq, -⟩ | ⟨heq, -⟩⟩
      · have hu := alters_consumeAll (A := fun x => ¬ T x) hl s
        rw [heq]
        refine Apart.trans hu.apart
          ⟨fun _ _ => ⟨rfl, rfl, rfl⟩, Function.update_of_ne ?_ _ _⟩
        rw [createLockId_alters hu]
        exact (he.lock l rfl).symm
      · rw [heq]
        exact (hu _ hl).apart
      · rw [heq]
        exact (hu _ hl).apart
  | assetCommit id' =>
      have hne : id' ≠ id := fun h => he.commit (h ▸ rfl)
      unfold handle assetCommit
      refine apart_bind ?_ fun _ t => Apart.refl t
      split
      · exact apart_bind (within_apart (within_commitAll _ _ s))
          fun _ t => apart_dropLock hne t
      · exact Apart.refl s
  | assetUnlock id' =>
      have hne : id' ≠ id := fun h => he.unlock (h ▸ rfl)
      unfold handle assetUnlock
      refine apart_bind ?_ fun _ t => Apart.refl t
      split
      · next l hl =>
        have hgive := alters_giveBackAll (A := fun x => ¬ T x)
          (hother fun t ht hn => he.assets t ht ⟨l, hl, hn⟩) s
        exact hgive.apart.trans (apart_dropLock hne _)
      · exact Apart.refl s
  | assetStaging l =>
      exact apart_bind (within_apart (within_assetStaging (hother he.assets) s))
        fun _ t => Apart.refl t
  | assetMergeCommit ids => exact within_apart (within_assetMergeCommit ids s)
  | changeAssetMulti saveDb l =>
      exact within_apart (within_changeAssetMulti
        (fun c hc ht => he.assets _ ht ⟨c, hc, rfl⟩) saveDb s)

theorem apart_of_reach {v : Account} {waiting waiting' : List (Ask × (Answer → Op Unit))}
    (hwait : ∀ x ∈ waiting, ∀ a t, (x.2 a t).Within (Apart T id) t)
    (h : Reach (World.step handle)
      (World.Admits (fun _ _ => True) (LeavesAlone T id) fun _ => True)
      ⟨u, waiting⟩ ⟨v, waiting'⟩) : Apart T id u v := by
  have hstep : ∀ s t : Account, Apart T id u s → Apart T id s t → Apart T id u t :=
    fun _ _ h h' => h.trans h'
  exact (World.Kept.reach (J := Apart T id u)
    (fun s e hs he => (within_handle he).keeps hstep hs)
    ⟨Apart.refl u, fun x hx a t _ ht _ => (hwait x hx a t).keeps hstep ht⟩ h).1

/-! ## The amounts that are given back -/

theorem giveBackAll_num (l : List Asset) (s : Account) :
    (giveBackAll l s).playerObjectNum = s.playerObjectNum := by
  induction l generalizing s with
  | nil => rfl
  | cons a l ih =>
      rw [giveBackAll, ih]
      split <;> rfl

theorem giveBackAll_objectId (l : List Asset) (s : Account) :
    (giveBackAll l s).playerObjectId = s.playerObjectId := by
  induction l generalizing s with
  | nil => rfl
  | cons a l ih =>
      rw [giveBackAll, ih]
      split <;> rfl

theorem giveBackAll_datas {x : AssetType} (l : List Asset) (s : Account) :
    (consumes l x → (giveBackAll l s).assetDatas x =
      some ((s.assetDatas x).getD 0 + consumed l x)) ∧
    (¬ consumes l x → (giveBackAll l s).assetDatas x = s.assetDatas x) := by
  induction l generalizing s with
  | nil => simp [giveBackAll]
  | cons a l ih =>
      rw [giveBackAll, consumes_cons, consumed_cons]
      by_cases ha : a.condiType = some .consume ∧ a.assetType = x
      · obtain ⟨hc, rfl⟩ := ha
        rw [if_pos hc, if_pos ⟨hc, rfl⟩]
        refine ⟨fun _ => ?_, fun h => absurd (.inl ⟨hc, rfl⟩) h⟩
        by_cases hl : consumes l a.assetType
        · rw [(ih _).1 hl, addAsset, setAsset_same, Option.getD_some, add_assoc]
        · rw [(ih _).2 hl, addAsset, setAsset_same, consumed_of_not_consumes hl, add_zero]
      · have hsame : (if a.condiType = some .consume then s.addAsset a.assetType a.value
            else s).assetDatas x = s.assetDatas x := by
          split
          · next hc => exact setAsset_ne s _ fun h => ha ⟨hc, h.symm⟩
          · rfl
        have := ih (if a.condiType = some .consume then s.addAsset a.assetType a.value else s)
        rw [hsame] at this
        simpa [ha] using this

/-- `asset_unlock` undoes `asset_lock`, whatever operations on other assets run in
between, if and only if each consumed asset has an entry in `asset_datas` and
nothing of an object is consumed. -/
theorem unlock_restores_iff {s u v : Account} {l : List Asset} {id : Int}
    {waiting waiting' : List (Ask × (Answer → Op Unit))}
    (hlock : assetLock l s = .done u (0, id))
    (hwait : ∀ x ∈ waiting, ∀ a t, (x.2 a t).Within (Apart (Names l) id) t)
    (hbetween : Reach (World.step handle)
      (World.Admits (fun _ _ => True) (LeavesAlone (Names l) id) fun _ => True)
      ⟨u, waiting⟩ ⟨v, waiting'⟩) :
    ∃ w, assetUnlock id v = .done w 0 ∧
      ((∀ t, SameAt t u v → Restored t s w) ↔
        ∀ t, consumes l t →
          s.assetDatas t ≠ none ∧ (isObjectAsset t → consumed l t = 0)) := by
  have hv := apart_of_reach hwait hbetween
  obtain ⟨hl, rfl, rfl⟩ : s.Passes l ∧ u = (s.consumeAll l).takeLock l ∧
      id = s.createLockId := by
    rcases assetLock_cases l s with ⟨hl, heq⟩ | ⟨-, u', -, ⟨code, hpos, heq, -⟩ | ⟨heq, -⟩⟩
    · rw [hlock] at heq
      simp only [Prog.done.injEq, Prod.mk.injEq, true_and] at heq
      exact ⟨hl, heq⟩
    · rw [hlock] at heq
      simp only [Prog.done.injEq, Prod.mk.injEq] at heq
      omega
    · rw [hlock] at heq
      cases heq
  have hid : (s.consumeAll l).createLockId = s.createLockId :=
    createLockId_alters (alters_consumeAll (A := fun _ => True) (fun _ _ => trivial) s)
  have hlocked : v.assetLockedDatas s.createLockId = some l := by
    rw [hv.locked, takeLock, hid]
    exact Function.update_self ..
  refine ⟨(giveBackAll l v).dropLock s.createLockId, by rw [assetUnlock, hlocked], ?_⟩
  have hdatas : ∀ t, ((giveBackAll l v).dropLock s.createLockId).assetDatas t =
      (giveBackAll l v).assetDatas t := fun _ => rfl
  have hnum : ((giveBackAll l v).dropLock s.createLockId).playerObjectNum =
      v.playerObjectNum := giveBackAll_num l v
  constructor
  · intro h t hc
    have hname : Names l t := hc.imp fun a ha => ⟨ha.1, ha.2.2⟩
    have hsame := hv.same t hname
    have hrest := h t hsame
    refine ⟨?_, fun ht => ?_⟩
    · rw [← hrest.datas, hdatas, (giveBackAll_datas l v).1 hc]
      simp
    · obtain ⟨n, hn⟩ := Option.ne_none_iff_exists'.mp (hl.num_ne_none hc ht)
      have := hrest.num
      rw [hnum, hsame.num, takeLock, consumeAll_num_object ht, hn] at this
      simpa using this
  · intro h t hsame
    have hzero : isObjectAsset t → consumed l t = 0 := fun ht => by
      by_cases hc : consumes l t
      · exact (h t hc).2 ht
      · exact consumed_of_not_consumes hc
    have hd : ((giveBackAll l v).dropLock s.createLockId).assetDatas t =
        s.assetDatas t := by
      rw [hdatas]
      by_cases hc : consumes l t
      · obtain ⟨n, hn⟩ := Option.ne_none_iff_exists'.mp (h t hc).1
        rw [(giveBackAll_datas l v).1 hc, hsame.datas, hn, takeLock]
        by_cases ht : isObjectAsset t
        · simp [consumeAll_assetDatas_object ht, hn, hzero ht]
        · obtain ⟨m, hm⟩ := Option.ne_none_iff_exists'.mp
            ((consumeAll_assetDatas_coin (s := s) ht l).1 (.inl hc))
          have hvalue := consumeAll_myValue_coin (s := s) ht l
          rw [myValue_of_some hm, myValue_of_some hn] at hvalue
          simp [hm, hvalue]
      · rw [(giveBackAll_datas l v).2 hc, hsame.datas, takeLock]
        by_cases ht : isObjectAsset t
        · exact consumeAll_assetDatas_object ht l
        · exact (consumeAll_assetDatas_coin ht l).2 hc
    have hn : ((giveBackAll l v).dropLock s.createLockId).playerObjectNum t =
        s.playerObjectNum t := by
      rw [hnum, hsame.num, takeLock]
      by_cases ht : isObjectAsset t
      · simp [consumeAll_num_object ht, hzero ht]
      · exact consumeAll_num_coin ht l
    have hobject : ((giveBackAll l v).dropLock s.createLockId).playerObjectId t =
        s.playerObjectId t := by
      rw [dropLock, giveBackAll_objectId, hsame.objectId, takeLock, consumeAll_objectId]
    refine ⟨hd, hn, ?_⟩
    rw [queryAssetByType, queryAssetByType, hd, hn, hobject]

def tenCoins : Account :=
  { assetDatas := fun t =>
      if t = "jing_bi" then some 10 else if t = "diamond" then some 3 else none }

def coinFee : List Asset := [⟨"jing_bi", 4, some .consume⟩]

def diamondFee : List Asset := [⟨"diamond", 1, some .consume⟩]

def locks (l : List Asset) (s : Account) : Bool :=
  match assetLock l s with
  | .done _ (code, _) => code = 0
  | _ => false

theorem assetLock_of_locks {l : List Asset} {s : Account} (h : locks l s = true) :
    assetLock l s = .done ((s.consumeAll l).takeLock l) (0, s.createLockId) := by
  unfold locks at h
  rcases assetLock_cases l s with ⟨-, heq⟩ | ⟨-, u, -, ⟨code, hcode, heq, -⟩ | ⟨heq, -⟩⟩
  · exact heq
  · rw [heq] at h
    exact absurd (of_decide_eq_true h) (by omega)
  · rw [heq] at h
    cases h

/-- Diamonds are locked while the coins are. -/
theorem unlock_restores_coins :
    ∃ u id v w, assetLock coinFee tenCoins = .done u (0, id) ∧
      World.step handle ⟨u, []⟩ (.command (.assetLock diamondFee)) = ⟨v, []⟩ ∧
      v.assetDatas "diamond" = some 2 ∧ assetUnlock id v = .done w 0 ∧
      Restored "jing_bi" tenCoins w := by
  have hlock := assetLock_of_locks (l := coinFee) (s := tenCoins) (by decide +kernel)
  let u := (tenCoins.consumeAll coinFee).takeLock coinFee
  have hnext : World.step handle ⟨u, []⟩ (.command (.assetLock diamondFee)) =
      ⟨(u.consumeAll diamondFee).takeLock diamondFee, []⟩ := by
    have hdiamond := assetLock_of_locks (l := diamondFee) (s := u) (by decide +kernel)
    simp only [World.step, handle, hdiamond, Prog.bind, World.stop]
  have hbetween : Reach (World.step handle) (World.Admits (fun _ _ => True)
      (LeavesAlone (Names coinFee) tenCoins.createLockId) fun _ => True) ⟨u, []⟩
      (World.step handle ⟨u, []⟩ (.command (.assetLock diamondFee))) := by
    refine .tail .refl ⟨?_, (Event.noConfusion ·), (Event.noConfusion ·),
      fun l _ => by decide +kernel⟩
    rintro t ⟨a, ha, rfl⟩ ⟨c, hc, hsame⟩
    obtain rfl := List.mem_singleton.mp ha
    obtain rfl := List.mem_singleton.mp hc
    exact absurd hsame (by decide)
  rw [hnext] at hbetween
  have hnobody : ∀ x ∈ ([] : List (Ask × (Answer → Op Unit))), ∀ a t,
      (x.2 a t).Within (Apart (Names coinFee) tenCoins.createLockId) t := by simp
  obtain ⟨w, hw, hiff⟩ := unlock_restores_iff hlock hnobody hbetween
  refine ⟨u, _, _, w, hlock, hnext, by decide +kernel, hw, hiff.mpr ?_ _ ?_⟩
  · rintro t ⟨a, ha, -, rfl⟩
    obtain rfl := List.mem_singleton.mp ha
    refine ⟨by decide, fun h => ?_⟩
    revert h
    decide +kernel
  · exact ⟨by decide +kernel, by decide +kernel, by decide +kernel⟩

def ticketOnly : List Asset := [⟨"obj_ticket", 1, some .consume⟩]

/-- The ticket comes back to the wrong store. -/
theorem ticket_misplaced :
    ∃ u id w, assetLock ticketOnly oneTicket = .done u (0, id) ∧
      assetUnlock id u = .done w 0 ∧
      w.playerObjectNum "obj_ticket" = some 0 ∧ w.assetDatas "obj_ticket" = some 1 ∧
      ¬ Restored "obj_ticket" oneTicket w := by
  have hrun : (match assetLock ticketOnly oneTicket with
      | .done u (0, id) =>
          match assetUnlock id u with
          | .done w 0 => decide (w.playerObjectNum "obj_ticket" = some 0 ∧
              w.assetDatas "obj_ticket" = some 1)
          | _ => false
      | _ => false) = true := by
    decide +kernel
  split at hrun
  · next u id heq =>
    split at hrun
    · next w hw =>
      obtain ⟨hnum, hdatas⟩ := of_decide_eq_true hrun
      refine ⟨u, id, w, heq, hw, hnum, hdatas, fun h => ?_⟩
      rw [h.num] at hnum
      exact absurd hnum (by decide)
    · cases hrun
  · cases hrun

end Account

end JyQipai.AssetManage
