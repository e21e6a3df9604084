import JyQipai.AssetManage.Manage

/-!
# Checking and consuming a list of conditions

`asset_verify_consume` consumes item by item and gives back what it has consumed
when a later item fails.  It gives back coin-like assets only, so a failed check
leaves the account unchanged unless an object was consumed before the item that
fails.
-/

namespace JyQipai.AssetManage

open JyQipai.Lib

/-! ## What a list consumes -/

def consumed (l : List Asset) (t : AssetType) : Int :=
  (l.map fun a => if a.condiType = some .consume ∧ a.assetType = t then a.value else 0).sum

def consumes (l : List Asset) (t : AssetType) : Prop :=
  ∃ a ∈ l, a.condiType = some .consume ∧ a.assetType = t

namespace Account

/-- The amount that the next check reads when `pre` has been consumed.  An object
is looked up in `asset_datas` first, but consumed in `player_object_num`. -/
def left (s : Account) (pre : List Asset) (t : AssetType) : Int :=
  if isObjectAsset t then
    match s.assetDatas t with
    | some n => n
    | none => ((s.playerObjectNum t).map (· - consumed pre t)).getD 0
  else s.myValue t - consumed pre t

/-- The condition is checked after `pre` and not fulfilled. -/
def Unmet (s : Account) (pre : List Asset) (a : Asset) : Prop :=
  a.assetType ≠ "jipaiqi" ∧
    match a.condiType with
    | some .consume => s.left pre a.assetType < a.value
    | some .equal => s.left pre a.assetType ≠ a.value
    | some .greater => s.left pre a.assetType < a.value
    | some .less => a.value < s.left pre a.assetType
    | _ => False

def Raises (s : Account) (pre : List Asset) (a : Asset) : Prop :=
  a.assetType = "jipaiqi" ∨
    match a.condiType with
    | some .consume => a.value ≤ s.left pre a.assetType ∧ isObjectAsset a.assetType ∧
        s.playerObjectNum a.assetType = none
    | some .notEqual | none => s.debug
    | _ => False

def Passes (s : Account) (l : List Asset) : Prop :=
  ∀ pre a post, l = pre ++ a :: post → ¬ s.Unmet pre a ∧ ¬ s.Raises pre a

/-- Coin-like assets that `pre` consumes have an entry in `asset_datas`, and of
objects it consumes nothing. -/
def Restores (s : Account) (pre : List Asset) : Prop :=
  ∀ t, consumes pre t →
    if isObjectAsset t then consumed pre t = 0 else s.assetDatas t ≠ none

/-- Objects that are looked up in `asset_datas` are there in number. -/
def Covers (s : Account) (l : List Asset) : Prop :=
  ∀ t, consumes l t → isObjectAsset t → s.assetDatas t ≠ none →
    consumed l t ≤ (s.playerObjectNum t).getD 0

def amount (s : Account) (t : AssetType) : Int :=
  if isObjectAsset t then (s.playerObjectNum t).getD 0 else s.myValue t

/-- A check that fails changes nothing, and one that succeeds takes just what is
consumed and leaves no debt. -/
structure Honest (s : Account) (l : List Asset) (code : Int) (s' : Account) : Prop where
  failed : code ≠ 0 →
    s'.assetDatas = s.assetDatas ∧ s'.playerObjectNum = s.playerObjectNum
  taken : code = 0 → ∀ t, s'.amount t = s.amount t - consumed l t
  nonneg : code = 0 → ∀ t, consumes l t → 0 ≤ s'.amount t

def consumeOne (s : Account) (a : Asset) : Account :=
  if a.condiType = some .consume then
    if isObjectAsset a.assetType then
      { s with
        playerObjectNum := Function.update s.playerObjectNum a.assetType
          ((s.playerObjectNum a.assetType).map (· - a.value)) }
    else s.setAsset a.assetType (s.myValue a.assetType - a.value)
  else s

def consumeAll (s : Account) (l : List Asset) : Account := l.foldl consumeOne s

def deducted (d : Table) (l : List Asset) : Table :=
  l.foldl (fun d a => if a.condiType = some .consume ∧ ¬ isObjectAsset a.assetType then
    d.add a.assetType a.value else d) d

end Account

/-! ## One condition -/

@[simp] theorem consumed_nil (t : AssetType) : consumed [] t = 0 := rfl

theorem consumed_cons (a : Asset) (l : List Asset) (t : AssetType) :
    consumed (a :: l) t =
      (if a.condiType = some .consume ∧ a.assetType = t then a.value else 0) +
        consumed l t := rfl

@[simp] theorem not_consumes_nil (t : AssetType) : ¬ consumes [] t := by
  rintro ⟨a, ha, -⟩
  cases ha

theorem consumes_cons (a : Asset) (l : List Asset) (t : AssetType) :
    consumes (a :: l) t ↔
      (a.condiType = some .consume ∧ a.assetType = t) ∨ consumes l t := by
  simp [consumes]

namespace Account

variable {s : Account} {a b : Asset} {l pre : List Asset} {t : AssetType}

theorem setAsset_same (s : Account) (t : AssetType) (n : Int) :
    (s.setAsset t n).assetDatas t = some n := Function.update_self ..

theorem setAsset_ne (s : Account) (n : Int) {t u : AssetType} (h : u ≠ t) :
    (s.setAsset t n).assetDatas u = s.assetDatas u := Function.update_of_ne h ..

theorem setNum_ne (s : Account) (n : Int) {t u : AssetType} (h : u ≠ t) :
    (s.setNum t n).playerObjectNum u = s.playerObjectNum u := Function.update_of_ne h ..

theorem myValue_of_some {n : Int} (h : s.assetDatas t = some n) : s.myValue t = n := by
  simp [myValue, h]

theorem left_nil (s : Account) (t : AssetType) : s.left [] t = s.myValue t := by
  unfold left myValue
  split
  · cases h : s.assetDatas t <;> cases s.playerObjectNum t <;> simp
  · simp

theorem consumeOne_assetDatas_object (ht : isObjectAsset t) :
    (s.consumeOne a).assetDatas t = s.assetDatas t := by
  unfold consumeOne
  split
  · split
    · rfl
    · next hobj =>
      refine setAsset_ne s _ ?_
      rintro rfl
      exact hobj ht
  · rfl

theorem consumeOne_num_coin (ht : ¬ isObjectAsset t) :
    (s.consumeOne a).playerObjectNum t = s.playerObjectNum t := by
  unfold consumeOne
  split
  · split
    · next hobj =>
      refine Function.update_of_ne ?_ _ _
      rintro rfl
      exact ht hobj
    · rfl
  · rfl

theorem consumeOne_num_object (ht : isObjectAsset t) :
    (s.consumeOne a).playerObjectNum t = (s.playerObjectNum t).map
      (· - if a.condiType = some .consume ∧ a.assetType = t then a.value else 0) := by
  unfold consumeOne
  split
  · next hc =>
    by_cases hat : a.assetType = t
    · subst hat
      simp [ht, hc]
    · split
      · simp [Function.update_of_ne (Ne.symm hat), hat]
      · simp [setAsset, hat]
  · next hc => simp [hc]

theorem consumeOne_myValue_coin (ht : ¬ isObjectAsset t) :
    (s.consumeOne a).myValue t = s.myValue t -
      if a.condiType = some .consume ∧ a.assetType = t then a.value else 0 := by
  by_cases hat : a.condiType = some .consume ∧ a.assetType = t
  · obtain ⟨hc, rfl⟩ := hat
    simp [consumeOne, hc, ht, myValue, setAsset]
  · rw [if_neg hat, sub_zero]
    unfold consumeOne
    split
    · next hc =>
      have hne : t ≠ a.assetType := fun h => hat ⟨hc, h.symm⟩
      split
      · simp [myValue, Function.update_of_ne hne]
      · simp [myValue, setAsset, Function.update_of_ne hne]
    · rfl

theorem left_consumeOne (s : Account) (a : Asset) (pre : List Asset) (t : AssetType) :
    (s.consumeOne a).left pre t = s.left (a :: pre) t := by
  unfold left
  by_cases ht : isObjectAsset t
  · rw [if_pos ht, if_pos ht, consumeOne_assetDatas_object ht, consumeOne_num_object ht,
      consumed_cons]
    cases s.assetDatas t with
    | some n => rfl
    | none =>
        dsimp only
        rw [Option.map_map]
        congr 2
        funext n
        simp only [Function.comp_apply]
        ring
  · rw [if_neg ht, if_neg ht, consumeOne_myValue_coin ht, consumed_cons]
    ring

theorem unmet_consumeOne : (s.consumeOne a).Unmet pre b ↔ s.Unmet (a :: pre) b := by
  unfold Unmet
  rw [left_consumeOne]

theorem raises_consumeOne : (s.consumeOne a).Raises pre b ↔ s.Raises (a :: pre) b := by
  have hdebug : (s.consumeOne a).debug = s.debug := by
    unfold consumeOne
    split
    · split <;> rfl
    · rfl
  unfold Raises
  rw [left_consumeOne, hdebug]
  have hnum : (isObjectAsset b.assetType = true ∧
      (s.consumeOne a).playerObjectNum b.assetType = none) ↔
      (isObjectAsset b.assetType = true ∧ s.playerObjectNum b.assetType = none) := by
    refine and_congr_right fun h => ?_
    rw [consumeOne_num_object h, Option.map_eq_none_iff]
  rw [hnum]

theorem Unmet.not_raises (h : s.Unmet pre a) : ¬ s.Raises pre a := by
  obtain ⟨hj, h⟩ := h
  rintro (hr | hr)
  · exact hj hr
  · cases hc : a.condiType with
    | none => simp [hc] at h
    | some c =>
        cases c with
        | consume =>
            simp only [hc] at h hr
            omega
        | notEqual => simp [hc] at h
        | _ => simp [hc] at hr

theorem passes_nil (s : Account) : s.Passes [] := by
  intro pre a post h
  simp at h

theorem passes_cons : s.Passes (a :: l) ↔
    (¬ s.Unmet [] a ∧ ¬ s.Raises [] a) ∧ (s.consumeOne a).Passes l := by
  constructor
  · intro h
    refine ⟨h [] a l rfl, fun pre b post hl => ?_⟩
    rw [unmet_consumeOne, raises_consumeOne]
    exact h (a :: pre) b post (by rw [hl]; rfl)
  · rintro ⟨ha, hl⟩ pre b post h
    cases pre with
    | nil =>
        obtain ⟨rfl, -⟩ := List.cons.inj h
        exact ha
    | cons c pre =>
        obtain ⟨rfl, htail⟩ := List.cons.inj h
        rw [← unmet_consumeOne, ← raises_consumeOne]
        exact hl pre b post htail

theorem consumeLoop_cons (a : Asset) (l : List Asset) (d : Table) (s : Account) :
    (s.Raises [] a ∧ consumeLoop (a :: l) d s = .raised s) ∨
    (s.Unmet [] a ∧ consumeLoop (a :: l) d s = .done s (assetError a.assetType, d)) ∨
    (¬ s.Unmet [] a ∧ ¬ s.Raises [] a ∧
      consumeLoop (a :: l) d s = consumeLoop l (deducted d [a]) (s.consumeOne a)) := by
  unfold Raises Unmet
  rw [left_nil, consumeLoop]
  by_cases hj : a.assetType = "jipaiqi"
  · exact .inl ⟨.inl hj, by simp [hj]⟩
  · simp only [hj, if_false, ne_eq, not_false_eq_true, true_and, false_or]
    cases hc : a.condiType with
    | none =>
        by_cases hd : s.debug = true
        · simp [fail, hd]
        · simp [fail, hd, deducted, consumeOne, hc]
    | some c =>
        cases c with
        | consume =>
            by_cases hlt : s.myValue a.assetType < a.value
            · simp [hlt]
            · by_cases ho : isObjectAsset a.assetType
              · cases hn : s.playerObjectNum a.assetType with
                | none =>
                    exact .inl ⟨⟨by omega, ho, rfl⟩, by simp [hlt, ho]⟩
                | some n =>
                    refine .inr (.inr ⟨hlt, by simp, ?_⟩)
                    simp [hlt, ho, deducted, consumeOne, hc, hn, setNum]
              · refine .inr (.inr ⟨hlt, by simp [ho], ?_⟩)
                simp [hlt, ho, deducted, consumeOne, hc]
        | equal =>
            by_cases h : s.myValue a.assetType = a.value
            · simp [h, deducted, consumeOne, hc]
            · simp [h]
        | greater =>
            by_cases h : s.myValue a.assetType < a.value
            · simp [h]
            · simp [h, deducted, consumeOne, hc]
        | less =>
            by_cases h : a.value < s.myValue a.assetType
            · simp [h]
            · simp [h, deducted, consumeOne, hc]
        | notEqual =>
            by_cases hd : s.debug = true
            · simp [fail, hd]
            · simp [fail, hd, deducted, consumeOne, hc]

/-! ## The whole list -/

theorem consumeAll_cons (s : Account) (a : Asset) (l : List Asset) :
    s.consumeAll (a :: l) = (s.consumeOne a).consumeAll l := rfl

theorem consumeLoop_append (hpre : s.Passes pre) (d : Table) (l : List Asset) :
    consumeLoop (pre ++ l) d s = consumeLoop l (deducted d pre) (s.consumeAll pre) := by
  induction pre generalizing s d with
  | nil => rfl
  | cons a pre ih =>
      obtain ⟨⟨hu, hr⟩, hpre⟩ := passes_cons.mp hpre
      rcases consumeLoop_cons a (pre ++ l) d s with ⟨h, -⟩ | ⟨h, -⟩ | ⟨-, -, heq⟩
      · exact absurd h hr
      · exact absurd h hu
      · rw [List.cons_append, heq, ih hpre]
        rfl

theorem left_consumeAll (s : Account) (pre l : List Asset) (t : AssetType) :
    (s.consumeAll pre).left l t = s.left (pre ++ l) t := by
  induction pre generalizing s with
  | nil => rfl
  | cons a pre ih => rw [consumeAll_cons, ih, left_consumeOne, List.cons_append]

theorem unmet_consumeAll : (s.consumeAll pre).Unmet [] b ↔ s.Unmet pre b := by
  unfold Unmet
  rw [left_consumeAll, List.append_nil]

theorem raises_consumeAll : (s.consumeAll pre).Raises [] b ↔ s.Raises pre b := by
  suffices ∀ l, (s.consumeAll pre).Raises l b ↔ s.Raises (pre ++ l) b by
    rw [this, List.append_nil]
  intro l
  induction pre generalizing s with
  | nil => rfl
  | cons a pre ih => rw [consumeAll_cons, ih, raises_consumeOne, List.cons_append]

theorem consumeLoop_unmet (hpre : s.Passes pre) (ha : s.Unmet pre a) (d : Table)
    (l : List Asset) : consumeLoop (pre ++ a :: l) d s =
      .done (s.consumeAll pre) (assetError a.assetType, deducted d pre) := by
  rw [consumeLoop_append hpre]
  rw [← unmet_consumeAll] at ha
  rcases consumeLoop_cons a l (deducted d pre) (s.consumeAll pre) with
    ⟨h, -⟩ | ⟨-, heq⟩ | ⟨h, -⟩
  · exact absurd h ha.not_raises
  · exact heq
  · exact absurd ha h

theorem consumeLoop_raises (hpre : s.Passes pre) (ha : s.Raises pre a) (d : Table)
    (l : List Asset) : consumeLoop (pre ++ a :: l) d s = .raised (s.consumeAll pre) := by
  rw [consumeLoop_append hpre]
  rw [← raises_consumeAll] at ha
  rcases consumeLoop_cons a l (deducted d pre) (s.consumeAll pre) with
    ⟨-, heq⟩ | ⟨h, -⟩ | ⟨-, h, -⟩
  · exact heq
  · exact absurd ha h.not_raises
  · exact absurd ha h

theorem passes_or_stops (s : Account) (l : List Asset) :
    s.Passes l ∨ ∃ pre a post, l = pre ++ a :: post ∧ s.Passes pre ∧
      (s.Unmet pre a ∨ s.Raises pre a) := by
  induction l generalizing s with
  | nil => exact .inl (passes_nil s)
  | cons a l ih =>
      by_cases ha : s.Unmet [] a ∨ s.Raises [] a
      · exact .inr ⟨[], a, l, rfl, passes_nil s, ha⟩
      · rw [not_or] at ha
        rcases ih (s.consumeOne a) with hl | ⟨pre, b, post, rfl, hpre, hb⟩
        · exact .inl (passes_cons.mpr ⟨ha, hl⟩)
        · rw [unmet_consumeOne, raises_consumeOne] at hb
          exact .inr ⟨a :: pre, b, post, rfl, passes_cons.mpr ⟨ha, hpre⟩, hb⟩

/-! ## The account afterwards -/

theorem consumed_of_not_consumes (h : ¬ consumes l t) : consumed l t = 0 := by
  induction l with
  | nil => rfl
  | cons a l ih =>
      rw [consumes_cons, not_or] at h
      rw [consumed_cons, if_neg h.1, ih h.2, zero_add]

theorem consumeAll_num_object (ht : isObjectAsset t) (l : List Asset) :
    (s.consumeAll l).playerObjectNum t =
      (s.playerObjectNum t).map (· - consumed l t) := by
  induction l generalizing s with
  | nil => simp [consumeAll]
  | cons a l ih =>
      rw [consumeAll_cons, ih, consumeOne_num_object ht, Option.map_map, consumed_cons]
      congr 1
      funext n
      simp only [Function.comp_apply]
      ring

theorem consumeAll_num_coin (ht : ¬ isObjectAsset t) (l : List Asset) :
    (s.consumeAll l).playerObjectNum t = s.playerObjectNum t := by
  induction l generalizing s with
  | nil => rfl
  | cons a l ih => rw [consumeAll_cons, ih, consumeOne_num_coin ht]

theorem consumeAll_objectId (l : List Asset) :
    (s.consumeAll l).playerObjectId = s.playerObjectId := by
  induction l generalizing s with
  | nil => rfl
  | cons a l ih =>
      rw [consumeAll_cons, ih]
      unfold consumeOne
      split
      · split <;> rfl
      · rfl

theorem consumeAll_assetDatas_object (ht : isObjectAsset t) (l : List Asset) :
    (s.consumeAll l).assetDatas t = s.assetDatas t := by
  induction l generalizing s with
  | nil => rfl
  | cons a l ih => rw [consumeAll_cons, ih, consumeOne_assetDatas_object ht]

theorem consumeAll_myValue_coin (ht : ¬ isObjectAsset t) (l : List Asset) :
    (s.consumeAll l).myValue t = s.myValue t - consumed l t := by
  induction l generalizing s with
  | nil => simp [consumeAll]
  | cons a l ih =>
      rw [consumeAll_cons, ih, consumeOne_myValue_coin ht, consumed_cons]
      ring

theorem consumeAll_assetDatas_coin (ht : ¬ isObjectAsset t) (l : List Asset) :
    (consumes l t ∨ s.assetDatas t ≠ none → (s.consumeAll l).assetDatas t ≠ none) ∧
      (¬ consumes l t → (s.consumeAll l).assetDatas t = s.assetDatas t) := by
  induction l generalizing s with
  | nil => simp [consumeAll]
  | cons a l ih =>
      rw [consumeAll_cons, consumes_cons]
      by_cases ha : a.condiType = some .consume ∧ a.assetType = t
      · have hsome : (s.consumeOne a).assetDatas t ≠ none := by
          obtain ⟨hc, rfl⟩ := ha
          simp [consumeOne, hc, ht, setAsset]
        exact ⟨fun _ => ih.1 (.inr hsome), fun h => absurd (.inl ha) h⟩
      · have hsame : (s.consumeOne a).assetDatas t = s.assetDatas t := by
          unfold consumeOne
          split
          · next hc =>
            split
            · rfl
            · exact setAsset_ne s _ fun h => ha ⟨hc, h.symm⟩
          · rfl
        simpa [ha, hsame] using ih (s := s.consumeOne a)

theorem get_deducted (d : Table) (ht : ¬ isObjectAsset t) (l : List Asset) :
    (deducted d l).get t = d.get t + consumed l t := by
  induction l generalizing d with
  | nil => simp [deducted]
  | cons a l ih =>
      change (deducted (deducted d [a]) l).get t = _
      rw [ih, consumed_cons]
      by_cases hc : a.condiType = some .consume ∧ ¬ isObjectAsset a.assetType
      · have hd : deducted d [a] = d.add a.assetType a.value := if_pos hc
        rw [hd, Amounts.get_add]
        simp only [hc.1, true_and]
        ring
      · have hne : ¬ (a.condiType = some .consume ∧ a.assetType = t) := by
          rintro ⟨h, rfl⟩
          exact hc ⟨h, ht⟩
        have hd : deducted d [a] = d := if_neg hc
        rw [hd, if_neg hne, zero_add]

theorem mem_keys_deducted (d : Table) (l : List Asset) (t : AssetType) :
    t ∈ (deducted d l).keys ↔ t ∈ d.keys ∨ consumes l t ∧ ¬ isObjectAsset t := by
  induction l generalizing d with
  | nil => simp [deducted]
  | cons a l ih =>
      change t ∈ (deducted (deducted d [a]) l).keys ↔ _
      rw [ih, consumes_cons]
      by_cases hc : a.condiType = some .consume ∧ ¬ isObjectAsset a.assetType
      · have hd : deducted d [a] = d.add a.assetType a.value := if_pos hc
        rw [hd, Amounts.mem_keys_add]
        constructor
        · rintro ((rfl | h) | h)
          · exact .inr ⟨.inl ⟨hc.1, rfl⟩, hc.2⟩
          · exact .inl h
          · exact .inr ⟨.inr h.1, h.2⟩
        · rintro (h | ⟨⟨-, rfl⟩ | h, ht⟩)
          · exact .inl (.inr h)
          · exact .inl (.inl rfl)
          · exact .inr ⟨h, ht⟩
      · have hd : deducted d [a] = d := if_neg hc
        rw [hd]
        constructor
        · rintro (h | h)
          · exact .inl h
          · exact .inr ⟨.inr h.1, h.2⟩
        · rintro (h | ⟨⟨h, rfl⟩ | h, ht⟩)
          · exact .inl h
          · exact absurd ⟨h, ht⟩ hc
          · exact .inr ⟨h, ht⟩

theorem giveBack_spec {es : List (AssetType × Int)} (hnodup : (es.map Prod.fst).Nodup)
    (hcoin : ∀ t ∈ es.map Prod.fst, ¬ isObjectAsset t) (s : Account) :
    ∃ u, giveBack es s = .done u () ∧ u.playerObjectNum = s.playerObjectNum ∧
      ∀ t, u.assetDatas t = match es.lookup t with
        | some n => some ((s.assetDatas t).getD 0 + n)
        | none => s.assetDatas t := by
  induction es generalizing s with
  | nil => exact ⟨s, rfl, rfl, fun _ => rfl⟩
  | cons e es ih =>
      obtain ⟨k, n⟩ := e
      rw [List.map_cons, List.nodup_cons] at hnodup
      obtain ⟨u, hu, hnum, hdatas⟩ := ih hnodup.2
        (fun t ht => hcoin t (List.mem_cons_of_mem _ ht)) (s.addAsset k n)
      have hk : ¬ isObjectAsset k := hcoin k List.mem_cons_self
      refine ⟨u, by rw [giveBack, if_neg hk, hu], hnum, fun t => ?_⟩
      rw [hdatas, List.lookup_cons]
      by_cases ht : t = k
      · subst ht
        have hnone : es.lookup t = none :=
          Amounts.lookup_of_not_mem_keys (d := ⟨es, hnodup.2⟩) hnodup.1
        simp [hnone, addAsset, setAsset]
      · have hb : (t == k) = false := by simpa using ht
        rw [hb, addAsset, setAsset_ne _ _ ht]

theorem assetError_pos (t : AssetType) : 0 < assetError t := by
  unfold assetError
  repeat' split
  all_goals decide

theorem assetError_ne_zero (t : AssetType) : assetError t ≠ 0 := (assetError_pos t).ne'

theorem assetVerifyConsume_passes (h : s.Passes l) :
    assetVerifyConsume l s = .done (s.consumeAll l) 0 := by
  have := consumeLoop_append h .empty []
  rw [List.append_nil] at this
  rw [assetVerifyConsume, this]
  rfl

theorem assetVerifyConsume_raises (post : List Asset) (hpre : s.Passes pre)
    (ha : s.Raises pre a) :
    assetVerifyConsume (pre ++ a :: post) s = .raised (s.consumeAll pre) := by
  rw [assetVerifyConsume, consumeLoop_raises hpre ha]
  rfl

theorem assetVerifyConsume_unmet (post : List Asset) (hpre : s.Passes pre)
    (ha : s.Unmet pre a) :
    ∃ u, assetVerifyConsume (pre ++ a :: post) s = .done u (assetError a.assetType) ∧
      (∀ t, isObjectAsset t → u.assetDatas t = s.assetDatas t ∧
        u.playerObjectNum t = (s.playerObjectNum t).map (· - consumed pre t)) ∧
      ∀ t, ¬ isObjectAsset t → u.playerObjectNum t = s.playerObjectNum t ∧
        (consumes pre t → u.assetDatas t = some (s.myValue t)) ∧
        (¬ consumes pre t → u.assetDatas t = s.assetDatas t) := by
  have hkeys : ∀ t, t ∈ (deducted .empty pre).keys ↔
      consumes pre t ∧ ¬ isObjectAsset t := by
    simp [mem_keys_deducted]
  obtain ⟨u, hu, hnum, hdatas⟩ := giveBack_spec (deducted .empty pre).nodup
    (fun t ht => ((hkeys t).mp ht).2) (s.consumeAll pre)
  refine ⟨u, ?_, fun t ht => ⟨?_, ?_⟩, fun t ht => ⟨?_, fun hc => ?_, fun hc => ?_⟩⟩
  · rw [assetVerifyConsume, consumeLoop_unmet hpre ha]
    simp only [Prog.bind]
    rw [if_pos (assetError_ne_zero _), hu]
    rfl
  · rw [hdatas, Amounts.lookup_of_not_mem_keys fun h => ((hkeys t).mp h).2 ht]
    exact consumeAll_assetDatas_object ht pre
  · rw [hnum, consumeAll_num_object ht]
  · rw [hnum, consumeAll_num_coin ht]
  · rw [hdatas, Amounts.lookup_of_mem_keys ((hkeys t).mpr ⟨hc, ht⟩), get_deducted _ ht]
    obtain ⟨n, hn⟩ := Option.ne_none_iff_exists'.mp
      ((consumeAll_assetDatas_coin (s := s) ht pre).1 (.inl hc))
    have hvalue := myValue_of_some hn
    rw [consumeAll_myValue_coin ht] at hvalue
    simp [hn, ← hvalue]
  · rw [hdatas, Amounts.lookup_of_not_mem_keys fun h => hc ((hkeys t).mp h).1]
    exact (consumeAll_assetDatas_coin ht pre).2 hc

theorem Passes.num_ne_none (h : s.Passes l) (hc : consumes l t) (ht : isObjectAsset t) :
    s.playerObjectNum t ≠ none := by
  obtain ⟨a, ha, hcond, rfl⟩ := hc
  obtain ⟨pre, post, rfl⟩ := List.append_of_mem ha
  obtain ⟨hunmet, hraises⟩ := h pre a post rfl
  intro hnone
  refine hraises (.inr ?_)
  simp only [hcond]
  refine ⟨?_, ht, hnone⟩
  by_contra hlt
  refine hunmet ⟨fun hj => hraises (.inl hj), ?_⟩
  simp only [hcond]
  omega

theorem Passes.left_nonneg (h : s.Passes l) (hc : consumes l t)
    (hobj : isObjectAsset t → s.assetDatas t = none) : 0 ≤ s.left l t := by
  induction l generalizing s with
  | nil => exact absurd hc (not_consumes_nil t)
  | cons a l ih =>
      obtain ⟨⟨hunmet, hraises⟩, hl⟩ := passes_cons.mp h
      rw [← left_consumeOne]
      by_cases hrest : consumes l t
      · exact ih hl hrest fun ht => by rw [consumeOne_assetDatas_object ht, hobj ht]
      · obtain ⟨hcond, rfl⟩ := ((consumes_cons a l t).mp hc).resolve_right hrest
        have hle : a.value ≤ s.left [] a.assetType := by
          by_contra hlt
          refine hunmet ⟨fun hj => hraises (.inl hj), ?_⟩
          simp only [hcond]
          omega
        unfold left at hle ⊢
        split
        · next ht =>
          obtain ⟨n, hn⟩ := Option.ne_none_iff_exists'.mp (h.num_ne_none hc ht)
          rw [consumeOne_assetDatas_object ht, consumeOne_num_object ht,
            consumed_of_not_consumes hrest]
          simp only [ht, hobj ht, hn, hcond] at hle ⊢
          simpa using hle
        · next ht =>
          rw [consumeOne_myValue_coin ht, consumed_of_not_consumes hrest]
          simp only [ht, hcond] at hle ⊢
          simpa using hle

theorem Passes.amount_consumeAll (h : s.Passes l) (t : AssetType) :
    (s.consumeAll l).amount t = s.amount t - consumed l t := by
  unfold amount
  split
  · next ht =>
    rw [consumeAll_num_object ht]
    cases hn : s.playerObjectNum t with
    | some n => rfl
    | none =>
        have hno : ¬ consumes l t := fun hc => h.num_ne_none hc ht hn
        simp [consumed_of_not_consumes hno]
  · next ht => exact consumeAll_myValue_coin ht l

theorem Passes.restores (h : s.Passes pre) {u : Account}
    (hobj : ∀ t, isObjectAsset t → u.playerObjectNum t =
      (s.playerObjectNum t).map (· - consumed pre t))
    (hcoin : ∀ t, ¬ isObjectAsset t → consumes pre t → u.assetDatas t = some (s.myValue t))
    (hdatas : u.assetDatas = s.assetDatas) (hnum : u.playerObjectNum = s.playerObjectNum) :
    s.Restores pre := by
  intro t hc
  split
  · next ht =>
    obtain ⟨n, hn⟩ := Option.ne_none_iff_exists'.mp (h.num_ne_none hc ht)
    have := hobj t ht
    rw [hnum, hn] at this
    simpa using this.symm
  · next ht =>
    have := hcoin t ht hc
    rw [hdatas] at this
    simp [this]

/-- `asset_verify_consume` is honest except when it fails after it consumed an
object or an asset without an entry, or consumes more of an object than there is
because it is looked up in `asset_datas`. -/
theorem verifyConsume_honest_iff (s : Account) (l : List Asset) :
    (∀ code s', assetVerifyConsume l s = .done s' code → s.Honest l code s') ↔
      (∀ pre a post, l = pre ++ a :: post → s.Passes pre → s.Unmet pre a →
        s.Restores pre) ∧
      (s.Passes l → s.Covers l) := by
  constructor
  · intro h
    constructor
    · rintro pre a post rfl hpre ha
      obtain ⟨u, hu, hobj, hcoin⟩ := assetVerifyConsume_unmet post hpre ha
      obtain ⟨hdatas, hnum⟩ := (h _ u hu).failed (assetError_ne_zero _)
      exact hpre.restores (fun t ht => (hobj t ht).2)
        (fun t ht hc => (hcoin t ht).2.1 hc) hdatas hnum
    · intro hl t hc ht _
      have hnonneg := (h 0 _ (assetVerifyConsume_passes hl)).nonneg rfl t hc
      rw [hl.amount_consumeAll, amount, if_pos ht] at hnonneg
      omega
  · rintro ⟨hfail, hcover⟩ code s' hrun
    rcases passes_or_stops s l with hl | ⟨pre, a, post, rfl, hpre, ha | ha⟩
    · rw [assetVerifyConsume_passes hl] at hrun
      cases hrun
      refine ⟨fun h => absurd rfl h, fun _ t => hl.amount_consumeAll t, fun _ t hc => ?_⟩
      rw [hl.amount_consumeAll]
      unfold amount
      split
      · next ht =>
        by_cases hnone : s.assetDatas t = none
        · have hleft := hl.left_nonneg hc fun _ => hnone
          obtain ⟨n, hn⟩ := Option.ne_none_iff_exists'.mp (hl.num_ne_none hc ht)
          simp only [left, ht, hnone, hn] at hleft
          simpa [hn] using hleft
        · have := hcover hl t hc ht hnone
          omega
      · next ht =>
        have hleft := hl.left_nonneg hc fun h => absurd h ht
        rwa [left, if_neg ht] at hleft
    · obtain ⟨u, hu, hobj, hcoin⟩ := assetVerifyConsume_unmet post hpre ha
      rw [hu] at hrun
      cases hrun
      have hrest := hfail pre a post rfl hpre ha
      refine ⟨fun _ => ⟨?_, ?_⟩, fun h => absurd h (assetError_ne_zero _),
        fun h => absurd h (assetError_ne_zero _)⟩
      · funext t
        by_cases ht : isObjectAsset t
        · exact (hobj t ht).1
        · by_cases hc : consumes pre t
          · have := hrest t hc
            rw [if_neg ht] at this
            obtain ⟨n, hn⟩ := Option.ne_none_iff_exists'.mp this
            rw [(hcoin t ht).2.1 hc, hn]
            simp [myValue, hn]
          · exact (hcoin t ht).2.2 hc
      · funext t
        by_cases ht : isObjectAsset t
        · rw [(hobj t ht).2]
          by_cases hc : consumes pre t
          · have := hrest t hc
            rw [if_pos ht] at this
            simp [this]
          · simp [consumed_of_not_consumes hc]
        · exact (hcoin t ht).1
    · rw [assetVerifyConsume_raises post hpre ha] at hrun
      cases hrun

/-! ## A ticket that is lost -/

def oneTicket : Account :=
  { playerObjectNum := fun t => if t = "obj_ticket" then some 1 else none }

def ticketFee : List Asset :=
  [⟨"obj_ticket", 1, some .consume⟩, ⟨"jing_bi", 5, some .consume⟩]

/-- The ticket is consumed, then the coins do not suffice. -/
theorem ticket_lost :
    ∃ u, assetVerifyConsume ticketFee oneTicket = .done u 1023 ∧
      oneTicket.playerObjectNum "obj_ticket" = some 1 ∧
      u.playerObjectNum "obj_ticket" = some 0 ∧ ¬ oneTicket.Honest ticketFee 1023 u := by
  have hrun : (match assetVerifyConsume ticketFee oneTicket with
      | .done u code => decide (code = 1023 ∧ u.playerObjectNum "obj_ticket" = some 0)
      | _ => false) = true := by
    decide +kernel
  split at hrun
  · next u code heq =>
    obtain ⟨rfl, hnum⟩ := of_decide_eq_true hrun
    refine ⟨u, heq, rfl, hnum, fun h => ?_⟩
    rw [(h.failed (by decide)).2] at hnum
    exact absurd hnum (by decide)
  · cases hrun

end Account

end JyQipai.AssetManage
