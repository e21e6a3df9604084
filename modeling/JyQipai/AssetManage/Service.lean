import JyQipai.AssetManage.Verify
import JyQipai.Lib.Reach

/-!
# The operations as events

The operations run one after the other, or interleaved where `change_asset_multi`
waits for a new object.  Each of them alters only the assets it is about, and
keeps the locks it is not about.
-/

namespace JyQipai.AssetManage

open JyQipai.Lib

inductive Event where
  | tick (now : Int)
  | assetLock (l : List Asset)
  | assetCommit (id : Int)
  | assetUnlock (id : Int)
  | assetStaging (l : List Asset)
  | assetMergeCommit (ids : List Nat)
  | changeAssetMulti (saveDb : Bool) (l : List Change)

namespace Account

def handle : Event → Op Unit
  | .tick now, s => .done { s with now := now } ()
  | .assetLock l, s => (assetLock l s).bind fun _ s => .done s ()
  | .assetCommit id, s => (assetCommit id s).bind fun _ s => .done s ()
  | .assetUnlock id, s => (assetUnlock id s).bind fun _ s => .done s ()
  | .assetStaging l, s => (assetStaging l s).bind fun _ s => .done s ()
  | .assetMergeCommit ids, s => assetMergeCommit ids s
  | .changeAssetMulti saveDb l, s => changeAssetMulti saveDb l s

/-- Only amounts of the assets in `A` change. -/
structure Alters (A : AssetType → Prop) (s t : Account) : Prop where
  datas : ∀ x, ¬ A x → t.assetDatas x = s.assetDatas x
  num : ∀ x, ¬ A x → t.playerObjectNum x = s.playerObjectNum x
  objectId : ∀ x, ¬ A x → t.playerObjectId x = s.playerObjectId x
  locked : t.assetLockedDatas = s.assetLockedDatas
  count : t.assetLockedDatasCount = s.assetLockedDatasCount
  now : t.now = s.now

section Alters

variable {A B : AssetType → Prop} {s t u : Account}

theorem Alters.refl (s : Account) : Alters A s s :=
  ⟨fun _ _ => rfl, fun _ _ => rfl, fun _ _ => rfl, rfl, rfl, rfl⟩

theorem Alters.trans (h : Alters A s t) (h' : Alters A t u) : Alters A s u where
  datas x hx := (h'.datas x hx).trans (h.datas x hx)
  num x hx := (h'.num x hx).trans (h.num x hx)
  objectId x hx := (h'.objectId x hx).trans (h.objectId x hx)
  locked := h'.locked.trans h.locked
  count := h'.count.trans h.count
  now := h'.now.trans h.now

theorem alters_setAsset {x : AssetType} (hx : A x) (s : Account) (n : Int) :
    Alters A s (s.setAsset x n) :=
  { Alters.refl s with
    datas := fun y hy => setAsset_ne s n fun h => hy (by rwa [h]) }

theorem alters_setNum {x : AssetType} (hx : A x) (s : Account) (n : Int) :
    Alters A s (s.setNum x n) :=
  { Alters.refl s with
    num := fun y hy => setNum_ne s n fun h => hy (by rwa [h]) }

theorem alters_addAsset {x : AssetType} (hx : A x) (s : Account) (n : Int) :
    Alters A s (s.addAsset x n) := alters_setAsset hx s _

theorem alters_send (s : Account) (m : Sent) : Alters A s (s.send m) :=
  { Alters.refl s with }

end Alters

/-- All stops of the operation alter only assets in `A`. -/
abbrev Within {α : Type} (A : AssetType → Prop) (s : Account)
    (p : Prog Account Ask Answer α) : Prop :=
  p.Within (Alters A) s

section Within

variable {A : AssetType → Prop} {s t : Account} {α β : Type}

theorem within_step {p : Prog Account Ask Answer α} (h : Alters A s t)
    (hp : Within A t p) : Within A s p :=
  hp.of_step (fun h h' => h.trans h') h

theorem within_bind {p : Prog Account Ask Answer α} {f : α → Op β} (hp : Within A s p)
    (hf : ∀ a t, Within A t (f a t)) : Within A s (p.bind f) :=
  hp.bind (fun h h' => h.trans h') hf

theorem alters_consumeAll {l : List Asset} (hl : ∀ a ∈ l, A a.assetType) (s : Account) :
    Alters A s (s.consumeAll l) := by
  induction l generalizing s with
  | nil => exact .refl s
  | cons a l ih =>
      have ha := hl a List.mem_cons_self
      refine Alters.trans ?_ (ih (fun b hb => hl b (List.mem_cons_of_mem _ hb)) _)
      unfold consumeOne
      split
      · split
        · exact {
            Alters.refl s with
            num := fun y hy => Function.update_of_ne (fun h => hy (by rwa [h])) _ _ }
        · exact alters_setAsset ha s _
      · exact .refl s

theorem within_giveBack {es : List (AssetType × Int)} (hes : ∀ e ∈ es, A e.1)
    (s : Account) : Within A s (giveBack es s) := by
  induction es generalizing s with
  | nil => exact .refl s
  | cons e es ih =>
      have ih := fun s => ih (fun b hb => hes b (List.mem_cons_of_mem _ hb)) s
      have he := hes e List.mem_cons_self
      unfold giveBack
      split
      · split
        · exact Alters.refl s
        · exact within_step (alters_setNum he s _) (ih _)
      · exact within_step (alters_addAsset he s _) (ih _)

theorem within_assetVerifyConsume {l : List Asset} (hl : ∀ a ∈ l, A a.assetType)
    (s : Account) : Within A s (assetVerifyConsume l s) := by
  rcases passes_or_stops s l with h | ⟨pre, a, post, rfl, hpre, ha | ha⟩
  · rw [assetVerifyConsume_passes h]
    exact alters_consumeAll hl s
  · rw [assetVerifyConsume, consumeLoop_unmet hpre ha]
    simp only [Prog.bind, if_pos (assetError_ne_zero _)]
    have hpre : ∀ b ∈ pre, A b.assetType := fun b hb => hl b (List.mem_append_left _ hb)
    refine within_step (alters_consumeAll hpre s) (within_bind (within_giveBack ?_ _)
      fun _ t => (Alters.refl t : Within A t (.done t _)))
    intro e he
    have hkey : e.1 ∈ (deducted .empty pre).keys := List.mem_map_of_mem he
    rw [mem_keys_deducted] at hkey
    rcases hkey with hkey | ⟨⟨b, hb, -, heq⟩, -⟩
    · simp at hkey
    · exact heq ▸ hpre b hb
  · rw [assetVerifyConsume_raises _ hpre ha]
    exact alters_consumeAll (fun b hb => hl b (List.mem_append_left _ hb)) s

theorem createLockId_alters (h : Alters A s t) : t.createLockId = s.createLockId := by
  rw [createLockId, createLockId, h.now, h.count]

theorem assetLock_cases (l : List Asset) (s : Account) :
    (s.Passes l ∧
      assetLock l s = .done ((s.consumeAll l).takeLock l) (0, s.createLockId)) ∨
    ¬ s.Passes l ∧ ∃ u, (∀ A, (∀ a ∈ l, A a.assetType) → Alters A s u) ∧
      ((∃ code, 0 < code ∧ assetLock l s = .done u (code, 0) ∧
        assetVerifyConsume l s = .done u code) ∨
        assetLock l s = .raised u ∧ assetVerifyConsume l s = .raised u) := by
  rcases passes_or_stops s l with h | ⟨pre, a, post, rfl, hpre, ha | ha⟩
  · refine .inl ⟨h, ?_⟩
    simp only [assetLock, assetVerifyConsume_passes h, Prog.bind]
    rw [if_neg (lt_irrefl _),
      createLockId_alters (alters_consumeAll (A := fun _ => True) (fun _ _ => trivial) s)]
  · obtain ⟨u, hu, -⟩ := assetVerifyConsume_unmet post hpre ha
    refine .inr ⟨fun h => (h pre a post rfl).1 ha, u, fun A hA => ?_,
      .inl ⟨assetError a.assetType, assetError_pos _, ?_, hu⟩⟩
    · have := within_assetVerifyConsume hA s
      rwa [hu] at this
    · simp only [assetLock, hu, Prog.bind]
      rw [if_pos (assetError_pos _)]
  · have hu := assetVerifyConsume_raises post hpre ha
    refine .inr ⟨fun h => (h pre a post rfl).2 ha, _, fun A hA => ?_, .inr ⟨?_, hu⟩⟩
    · have := within_assetVerifyConsume hA s
      rwa [hu] at this
    · simp only [assetLock, hu, Prog.bind]

theorem alters_putObject (s : Account) (id : ObjectId) (o : Obj) :
    Alters A s (s.putObject id o) :=
  { Alters.refl s with }

theorem alters_dropObject (s : Account) (id : ObjectId) : Alters A s (s.dropObject id) :=
  { Alters.refl s with }

theorem alters_save (saveDb : Bool) (m : Sent) (s : Account) :
    Alters A s (save saveDb m s) := by
  unfold save
  split
  · exact alters_send s m
  · exact .refl s

theorem within_deleteObj {t : Option AssetType} (id : ObjectId) (obj : Obj)
    (saveDb isNotChangeNum : Bool) (ht : isNotChangeNum ∨ ∀ x, t = some x → A x)
    (s : Account) : Within A s (deleteObj id obj t saveDb isNotChangeNum s) := by
  have hdrop := (alters_save (A := A) saveDb (.changeObject id obj.objectType none) s).trans
    (alters_dropObject _ id)
  unfold deleteObj
  dsimp only
  split
  · exact hdrop
  · next hnum =>
    split
    · exact hdrop
    · split
      · exact hdrop
      · exact hdrop.trans (alters_setNum (ht.resolve_left hnum _ rfl) _ _)

theorem within_addObj {t : AssetType} (ht : A t) (attr : Attribute) (isNotChangeNum : Bool)
    (id : Option ObjectId) (s : Account) :
    Within A s (addObj t attr isNotChangeNum id s) := by
  have hnum : Alters A s (if isNotChangeNum then s
      else s.setNum t ((s.playerObjectNum t).getD 0 + 1)) := by
    split
    · exact .refl s
    · exact alters_setNum ht s _
  unfold addObj
  dsimp only
  split
  · exact hnum
  · refine hnum.trans { Alters.refl _ with objectId := fun y hy => ?_ }
    refine Function.update_of_ne ?_ _ _
    rintro rfl
    exact hy ht

theorem within_changeObj {o : ObjData} (ho : ∀ x, o.objectType = some x → A x)
    (saveDb isNotChangeNum : Bool) (s : Account) :
    Within A s (changeObj o saveDb isNotChangeNum s) := by
  unfold changeObj
  split
  · split
    · exact Alters.refl s
    · exact (alters_save saveDb _ s).trans (alters_putObject _ _ _)
    · exact within_deleteObj _ _ _ _ (.inr ho) s
  · split
    · next ht =>
      split
      · refine ⟨.refl s, fun a u => ?_⟩
        cases a with
        | object id => exact within_addObj (ho _ ht) _ _ _ u
        | _ => exact Alters.refl u
      · exact within_addObj (ho _ ht) _ _ _ s
    · exact Alters.refl s

theorem within_deleteObjects (t : AssetType) (ids : List ObjectId) (objs : List Obj)
    (s : Account) : Within A s (deleteObjects t ids objs s) := by
  induction ids generalizing objs s with
  | nil => exact Alters.refl s
  | cons id ids ih =>
      refine within_bind ?_ fun _ t => ih _ t
      unfold changeObj
      split
      · exact within_deleteObj _ _ _ _ (.inl rfl) s
      · exact Alters.refl s

theorem within_commitAll (l : List Asset) (objs : Option (List Obj)) (s : Account) :
    Within A s (commitAll l objs s) := by
  induction l generalizing objs s with
  | nil => exact Alters.refl s
  | cons a l ih =>
      unfold commitAll
      split
      · split
        · split
          · exact Alters.refl s
          · exact within_bind (within_deleteObjects _ _ _ s) fun objs t => ih _ t
        · refine within_step ?_ (ih objs _)
          split
          · exact alters_send s _
          · exact .refl s
      · exact ih objs s

theorem alters_giveBackAll {l : List Asset} (hl : ∀ a ∈ l, A a.assetType) (s : Account) :
    Alters A s (giveBackAll l s) := by
  induction l generalizing s with
  | nil => exact .refl s
  | cons a l ih =>
      unfold giveBackAll
      refine Alters.trans ?_ (ih (fun b hb => hl b (List.mem_cons_of_mem _ hb)) _)
      split
      · exact alters_addAsset (hl a List.mem_cons_self) s _
      · exact .refl s

theorem alters_addAll {l : List Asset} (hl : ∀ a ∈ l, A a.assetType) (s : Account) :
    Alters A s (addAll l s) := by
  induction l generalizing s with
  | nil => exact .refl s
  | cons a l ih =>
      unfold addAll
      exact (alters_addAsset (hl a List.mem_cons_self) s _).trans
        (ih (fun b hb => hl b (List.mem_cons_of_mem _ hb)) _)

theorem within_assetStaging {l : List Asset} (hl : ∀ a ∈ l, A a.assetType) (s : Account) :
    Within A s (assetStaging l s) := by
  have hcount : Alters A s { s with assetStagingDataCount := s.assetStagingDataCount + 1 } :=
    ⟨fun _ _ => rfl, fun _ _ => rfl, fun _ _ => rfl, rfl, rfl, rfl⟩
  exact hcount.trans ((alters_addAll hl _).trans
    ⟨fun _ _ => rfl, fun _ _ => rfl, fun _ _ => rfl, rfl, rfl, rfl⟩)

theorem alters_mergeStaged (ids : List Nat) (d : Table) (s : Account) :
    Alters A s (mergeStaged ids d s).2 := by
  induction ids generalizing d s with
  | nil => exact .refl s
  | cons id ids ih =>
      unfold mergeStaged
      split
      · refine Alters.trans ?_ (ih _ _)
        exact ⟨fun _ _ => rfl, fun _ _ => rfl, fun _ _ => rfl, rfl, rfl, rfl⟩
      · exact ih d s

theorem alters_sendAll (es : List (AssetType × Int)) (s : Account) :
    Alters A s (sendAll es s) := by
  induction es generalizing s with
  | nil => exact .refl s
  | cons e es ih =>
      unfold sendAll
      refine Alters.trans ?_ (ih _)
      split
      · exact alters_send s _
      · exact .refl s

theorem within_assetMergeCommit (ids : List Nat) (s : Account) :
    Within A s (assetMergeCommit ids s) :=
  (alters_mergeStaged ids .empty s).trans (alters_sendAll _ _)

theorem within_changeObjs {o : ObjData} (ho : ∀ x, o.objectType = some x → A x)
    (saveDb : Bool) (n : Nat) (s : Account) : Within A s (changeObjs o saveDb n s) := by
  induction n generalizing s with
  | zero => exact Alters.refl s
  | succ n ih => exact within_bind (within_changeObj ho saveDb false s) fun _ t => ih t

def assetOf : Change → AssetType
  | .amount a _ => a.assetType
  | .object t .. => t

theorem within_changeOne {c : Change} (hc : A (assetOf c)) (saveDb : Bool) (s : Account) :
    Within A s (changeOne saveDb c s) := by
  cases c with
  | amount a objectId =>
      rw [changeOne]
      split
      · split
        · exact Alters.refl s
        · split
          · next hj =>
            split
            · exact Alters.refl s
            · refine within_changeObj ?_ saveDb false s
              rintro x ⟨⟩
              exact hj ▸ hc
          · exact (alters_addAsset hc s _).trans (alters_save saveDb _ _)
      · exact Alters.refl s
  | object t objectId attr num condi =>
      rw [changeOne]
      split
      · split
        · exact Alters.refl s
        · refine within_changeObjs ?_ saveDb _ s
          rintro x ⟨⟩
          exact hc
      · exact Alters.refl s

theorem within_changeAssetMulti {l : List Change} (hl : ∀ c ∈ l, A (assetOf c))
    (saveDb : Bool) (s : Account) : Within A s (changeAssetMulti saveDb l s) := by
  induction l generalizing s with
  | nil => exact Alters.refl s
  | cons c l ih =>
      exact within_bind (within_changeOne (hl c List.mem_cons_self) saveDb s)
        fun _ t => ih (fun b hb => hl b (List.mem_cons_of_mem _ hb)) t

end Within

end Account

end JyQipai.AssetManage
