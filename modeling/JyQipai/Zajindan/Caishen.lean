import JyQipai.Lib.Change
import JyQipai.Zajindan.Charge

/-!
# Hammers instead of coins

In the mode of the god of wealth the price is paid with hammers of four kinds, the dearest
first, and with coins for the rest.
-/

namespace JyQipai.Zajindan

open Lib AssetManage

namespace Agent

abbrev hammerKinds : List Nat := [4, 3, 2, 1]

def hammersHeld (s : Agent) (i : Nat) : Int := s.assetDatas (hammerOf i)

def takenTill (s t : Agent) (assetType : AssetType) : Int :=
  s.assetDatas assetType - t.assetDatas assetType

def HasHammers (s : Agent) (count : Nat → Int) : Prop :=
  ∀ i ∈ hammerKinds, 0 ≤ count i ∧ (count i = 0 ∨ count i ≤ s.hammersHeld i)

def hammersValue (count : Nat → Int) : Int :=
  (hammerKinds.map fun i => count i * hammerPrice i).sum

/-- The price of a level is paid with hammers that the player has and with coins, and no
choice of hammers that is not worth more than the price leaves fewer coins to pay. -/
structure FewestCoins (level : Nat) (s t : Agent) : Prop where
  price : hammersValue (fun i => s.takenTill t (hammerOf i)) + s.takenTill t "jing_bi" =
    caishenMoney level * 19
  held : s.HasHammers fun i => s.takenTill t (hammerOf i)
  fewest : ∀ count, s.HasHammers count → hammersValue count ≤ caishenMoney level * 19 →
    s.takenTill t "jing_bi" ≤ caishenMoney level * 19 - hammersValue count
  coins : 0 ≤ s.takenTill t "jing_bi"
  others : ∀ assetType ≠ "jing_bi", (∀ i ∈ hammerKinds, assetType ≠ hammerOf i) →
    s.takenTill t assetType = 0

variable {s t : Agent} {is : List Nat} {left : Int} {n : Nat} {i : Nat}

/-! ## The hammers that are taken -/

def countOf (hammers : List (Nat × Int)) (i : Nat) : Int :=
  ((hammers.filter fun x => x.1 = i).map Prod.snd).sum

@[simp] theorem countOf_nil : countOf [] i = 0 := rfl

theorem countOf_cons (x : Nat × Int) (hammers : List (Nat × Int)) (i : Nat) :
    countOf (x :: hammers) i = (if x.1 = i then x.2 else 0) + countOf hammers i := by
  by_cases hx : x.1 = i <;> simp [countOf, hx]

theorem dikouHammers_cons (s : Agent) (i : Nat) (is : List Nat) (left : Int) :
    (s.dikouHammers (i :: is) left).2 =
        (s.dikouHammers is (left - pieces hammerPrice s.hammersHeld i left * hammerPrice i)).2 ∧
      ∀ j, countOf (s.dikouHammers (i :: is) left).1 j =
        (if i = j then pieces hammerPrice s.hammersHeld i left else 0) +
          countOf (s.dikouHammers is
            (left - pieces hammerPrice s.hammersHeld i left * hammerPrice i)).1 j := by
  have hpieces : pieces hammerPrice s.hammersHeld i left =
      max 0 (min (left / hammerPrice i) (s.assetDatas (hammerOf i))) := rfl
  rw [dikouHammers]
  dsimp only
  split
  · rename_i hcount
    rw [hpieces, max_eq_right hcount.le]
    exact ⟨rfl, fun j => countOf_cons ..⟩
  · rename_i hcount
    rw [hpieces, max_eq_left (not_lt.mp hcount)]
    simp

theorem dikouHammers_left (s : Agent) (is : List Nat) (left : Int) :
    (s.dikouHammers is left).2 = leftOver hammerPrice s.hammersHeld is left := by
  induction is generalizing left with
  | nil => rfl
  | cons i is ih => rw [(s.dikouHammers_cons i is left).1, ih, leftOver]

theorem mem_dikouHammers {x : Nat × Int} (h : x ∈ (s.dikouHammers is left).1) : x.1 ∈ is := by
  induction is generalizing left with
  | nil => simp [dikouHammers] at h
  | cons i is ih =>
      rw [dikouHammers] at h
      dsimp only at h
      split at h
      · rcases List.mem_cons.mp h with rfl | h
        · exact List.mem_cons_self
        · exact List.mem_cons_of_mem i (ih h)
      · exact List.mem_cons_of_mem i (ih h)

theorem countOf_of_not_mem {hammers : List (Nat × Int)} (h : ∀ x ∈ hammers, x.1 ≠ i) :
    countOf hammers i = 0 := by
  rw [countOf, List.filter_eq_nil_iff.mpr fun x hx => by simpa using h x hx]
  rfl

theorem countOf_dikouHammers (hprice : ∀ i ∈ is, 0 < hammerPrice i) (hnodup : is.Nodup)
    (hleft : 0 ≤ left) :
    InStock s.hammersHeld (countOf (s.dikouHammers is left).1) is ∧
      valueOf hammerPrice (countOf (s.dikouHammers is left).1) is +
        leftOver hammerPrice s.hammersHeld is left = left := by
  induction is generalizing left with
  | nil => simp [InStock, leftOver]
  | cons i is ih =>
      obtain ⟨hi, hnodup⟩ := List.nodup_cons.mp hnodup
      have hpos := hprice i List.mem_cons_self
      have hmul := pieces_mul_le s.hammersHeld hpos hleft
      have hcount := (s.dikouHammers_cons i is left).2
      rw [leftOver]
      have hnonneg : 0 ≤ pieces hammerPrice s.hammersHeld i left := pieces_nonneg
      have hpieces : pieces hammerPrice s.hammersHeld i left = 0 ∨
          pieces hammerPrice s.hammersHeld i left ≤ s.hammersHeld i := by
        rcases le_total (min (left / hammerPrice i) (s.hammersHeld i)) 0 with hle | hle
        · exact .inl (max_eq_left hle)
        · exact .inr ((max_eq_right hle).trans_le (min_le_right ..))
      generalize pieces hammerPrice s.hammersHeld i left = g at hmul hcount hnonneg hpieces ⊢
      obtain ⟨hstock, hvalue⟩ := ih (fun j hj => hprice j (List.mem_cons_of_mem i hj)) hnodup
        (show 0 ≤ left - g * hammerPrice i by omega)
      have hself : countOf (s.dikouHammers (i :: is) left).1 i = g := by
        rw [hcount, if_pos rfl, countOf_of_not_mem, add_zero]
        intro x hx hxi
        exact hi (hxi ▸ mem_dikouHammers hx)
      have hother (j : Nat) (hj : j ∈ is) : countOf (s.dikouHammers (i :: is) left).1 j =
          countOf (s.dikouHammers is (left - g * hammerPrice i)).1 j := by
        rw [hcount, if_neg (ne_of_mem_of_not_mem hj hi).symm, zero_add]
      refine ⟨fun j hj => ?_, ?_⟩
      · rcases List.mem_cons.mp hj with rfl | hj
        · rw [hself]
          exact ⟨hnonneg, hpieces⟩
        · rw [hother j hj]
          exact hstock j hj
      · rw [valueOf_cons, hself, valueOf_congr hother]
        omega

/-! ## The assets afterwards -/

theorem takenTill_changeAsset (s t : Agent) (n : Nat) (a assetType : AssetType) (value : Int) :
    s.takenTill (t.changeAsset (some n) a value) assetType =
      s.takenTill t assetType - if a = assetType then value else 0 := by
  rw [takenTill, takenTill, assetDatas_changeAsset]
  ring

theorem takenTill_foldl (hammers : List (Nat × Int)) (s t : Agent) (assetType : AssetType) :
    s.takenTill (hammers.foldl (fun s (x : Nat × Int) =>
        s.changeAsset (some n) (hammerOf x.1) (-x.2)) t) assetType =
      s.takenTill t assetType +
        (hammers.map fun x => if hammerOf x.1 = assetType then x.2 else 0).sum := by
  induction hammers generalizing t with
  | nil => simp
  | cons x hammers ih =>
      rw [List.foldl_cons, ih, takenTill_changeAsset, List.map_cons, List.sum_cons]
      split <;> omega

theorem sum_eq_countOf {hammers : List (Nat × Int)} (hi : i ∈ hammerKinds)
    (h : ∀ x ∈ hammers, x.1 ∈ hammerKinds) :
    (hammers.map fun x => if hammerOf x.1 = hammerOf i then x.2 else 0).sum =
      countOf hammers i := by
  have hinj : ∀ i ∈ hammerKinds, ∀ j ∈ hammerKinds, hammerOf i = hammerOf j → i = j := by decide
  induction hammers with
  | nil => rfl
  | cons x hammers ih =>
      have hx := h x List.mem_cons_self
      have hiff : hammerOf x.1 = hammerOf i ↔ x.1 = i :=
        ⟨hinj x.1 hx i hi, fun heq => by rw [heq]⟩
      rw [List.map_cons, List.sum_cons, countOf_cons,
        ih fun y hy => h y (List.mem_cons_of_mem x hy)]
      simp only [hiff]

theorem sum_eq_zero_of_ne {hammers : List (Nat × Int)} {assetType : AssetType}
    (h : ∀ x ∈ hammers, hammerOf x.1 ≠ assetType) :
    (hammers.map fun x => if hammerOf x.1 = assetType then x.2 else 0).sum = 0 := by
  refine List.sum_eq_zero fun y hy => ?_
  obtain ⟨x, hx, rfl⟩ := List.mem_map.mp hy
  exact if_neg (h x hx)

theorem takenTill_paid {hammers : List (Nat × Int)} {money : Int} (hmoney : 0 ≤ money)
    (ht : t = if 0 < money then
        (hammers.foldl (fun s (x : Nat × Int) =>
          s.changeAsset (some n) (hammerOf x.1) (-x.2)) s).changeAsset (some n) "jing_bi" (-money)
      else hammers.foldl (fun s (x : Nat × Int) =>
        s.changeAsset (some n) (hammerOf x.1) (-x.2)) s) (assetType : AssetType) :
    s.takenTill t assetType =
      (hammers.map fun x => if hammerOf x.1 = assetType then x.2 else 0).sum +
        if "jing_bi" = assetType then money else 0 := by
  have hself : s.takenTill s assetType = 0 := sub_self _
  subst ht
  split
  · rw [takenTill_changeAsset, takenTill_foldl, hself]
    split <;> ring
  · rw [takenTill_foldl, hself]
    split <;> omega

theorem caishenMoney_nonneg (level : Nat) : 0 ≤ caishenMoney level := by
  have hpos : ∀ money ∈ ([100, 1000, 10000, 20000, 40000, 80000] : List Int), 0 ≤ money := by
    decide
  rw [caishenMoney, List.getD_eq_getElem?_getD]
  cases hget : ([100, 1000, 10000, 20000, 40000, 80000] : List Int)[level - 1]? with
  | none => exact le_refl 0
  | some money => exact hpos money (List.mem_of_getElem? hget)

theorem fewestCoins_paid {level : Nat} {hammers : List (Nat × Int)} {money : Int}
    (hdikou : s.dikouHammers hammerKinds (caishenMoney level * 19) = (hammers, money))
    (ht : ∀ assetType, s.takenTill t assetType =
      (hammers.map fun x => if hammerOf x.1 = assetType then x.2 else 0).sum +
        if "jing_bi" = assetType then money else 0) : FewestCoins level s t := by
  have hall : 0 ≤ caishenMoney level * 19 := mul_nonneg (caishenMoney_nonneg level) (by decide)
  have hprice : ∀ i ∈ hammerKinds, 0 < hammerPrice i := by decide
  have hkinds (x : Nat × Int) (hx : x ∈ hammers) : x.1 ∈ hammerKinds := by
    have hmem : x ∈ (s.dikouHammers hammerKinds (caishenMoney level * 19)).1 := by
      rw [hdikou]
      exact hx
    exact mem_dikouHammers hmem
  obtain ⟨hstock, hvalue⟩ := countOf_dikouHammers (s := s) hprice (by decide) hall
  have hleft := s.dikouHammers_left hammerKinds (caishenMoney level * 19)
  rw [hdikou] at hstock hvalue hleft
  dsimp only at hstock hvalue hleft
  have hhammers : ∀ i ∈ hammerKinds, s.takenTill t (hammerOf i) = countOf hammers i := by
    intro i hi
    have hname : ∀ i ∈ hammerKinds, "jing_bi" ≠ hammerOf i := by decide
    rw [ht, sum_eq_countOf hi hkinds, if_neg (hname i hi), add_zero]
  have hcoins : s.takenTill t "jing_bi" = money := by
    have hname : ∀ i ∈ hammerKinds, hammerOf i ≠ "jing_bi" := by decide
    rw [ht, sum_eq_zero_of_ne fun x hx => hname x.1 (hkinds x hx), if_pos rfl, zero_add]
  have hsame : hammersValue (fun i => s.takenTill t (hammerOf i)) =
      valueOf hammerPrice (countOf hammers) hammerKinds := valueOf_congr hhammers
  refine ⟨?_, fun i hi => ?_, fun count hcount hle => ?_, ?_, fun assetType hne hnot => ?_⟩
  · rw [hsame, hcoins, hleft, hvalue]
  · dsimp only
    rw [hhammers i hi]
    exact hstock i hi
  · rw [hcoins, hleft]
    have hchain : Chain hammerPrice hammerKinds := by
      unfold Chain
      decide
    exact leftOver_le_sub hprice (by decide) hchain hcount hle
  · rw [hcoins, hleft]
    exact (leftOver_le _ hprice hall).2
  · rw [ht, sum_eq_zero_of_ne fun x hx heq => hnot x.1 (hkinds x hx) heq.symm,
      if_neg (Ne.symm hne), add_zero]

def Payable (level : Nat) (s : Agent) : Prop :=
  ∃ count, s.HasHammers count ∧ hammersValue count ≤ caishenMoney level * 19 ∧
    (hammersValue count = caishenMoney level * 19 ∨
      caishenMoney level * 19 - hammersValue count ≤ s.assetDatas "jing_bi")

/-- The hammers replace as many coins as they can, and an error, which takes nothing, is answered
only where no choice of hammers pays. -/
theorem caishen_fewest_coins (n level : Nat) (s t : Agent) :
    (∀ useType, s.zjdCaishenDeductMoney n level = (.ok useType, t) → FewestCoins level s t) ∧
      (∀ code, s.zjdCaishenDeductMoney n level = (.error code, t) →
        t.assetDatas = s.assetDatas ∧ t.spent = s.spent) ∧
      ((∃ useType u, s.zjdCaishenDeductMoney n level = (.ok useType, u)) ↔ s.Payable level) := by
  have hprice : ∀ i ∈ hammerKinds, 0 < hammerPrice i := by decide
  have hall : 0 ≤ caishenMoney level * 19 := mul_nonneg (caishenMoney_nonneg level) (by decide)
  rcases hdikou : s.dikouHammers hammerKinds (caishenMoney level * 19) with ⟨hammers, money⟩
  have hleft : money =
      leftOver hammerPrice s.hammersHeld hammerKinds (caishenMoney level * 19) := by
    rw [← dikouHammers_left, hdikou]
  have hmoney : 0 ≤ money := hleft ▸ (leftOver_le _ hprice hall).2
  obtain ⟨hstock, hvalue⟩ := @countOf_dikouHammers s hammerKinds _ hprice (by decide) hall
  rw [hdikou, ← hleft] at hvalue
  rw [hdikou] at hstock
  dsimp only at hstock hvalue
  unfold zjdCaishenDeductMoney
  simp only [hdikou]
  split
  next hshort =>
    refine ⟨nofun, fun code h => ?_, iff_of_false nofun ?_⟩
    · obtain ⟨-, rfl⟩ := Prod.mk.inj h
      exact ⟨rfl, rfl⟩
    · rintro ⟨count, hcount, hle, hpays⟩
      have hcoins : s.assetDatas "jing_bi" < money := by
        by_contra hnot
        exact hshort.2 (if_neg hnot)
      have hchain : Chain hammerPrice hammerKinds := by
        unfold Chain
        decide
      have hfewest := leftOver_le_sub hprice (by decide) hchain hcount hle
      rw [← hleft] at hfewest
      change money ≤ caishenMoney level * 19 - hammersValue count at hfewest
      have := hshort.1
      omega
  next hpaid =>
    refine ⟨fun useType h => ?_, nofun, iff_of_true ⟨_, _, rfl⟩ ⟨countOf hammers, hstock, ?_, ?_⟩⟩
    · obtain ⟨-, ht⟩ := Prod.mk.inj h
      exact fewestCoins_paid hdikou (takenTill_paid hmoney ht.symm)
    · exact (le_add_of_nonneg_right hmoney).trans hvalue.le
    · change valueOf hammerPrice (countOf hammers) hammerKinds = _ ∨ _ - valueOf _ _ _ ≤ _
      by_cases hzero : 0 < money
      · have hcoins : ¬s.assetDatas "jing_bi" < money := fun hlt =>
          hpaid ⟨hzero, by
            rw [verifyCoins, if_pos hlt]
            decide⟩
        right
        omega
      · left
        omega

def mixedAgent : Agent :=
  { assetDatas := fun assetType =>
      if assetType = hammerOf 2 then 1 else if assetType = hammerOf 1 then 3
      else if assetType = "jing_bi" then 1000 else 0 }

/-- The price 1900 is paid with a hammer of 1000, three of 100, and 600 coins. -/
theorem caishen_fewest_coins_mixed :
    FewestCoins 1 mixedAgent (mixedAgent.zjdCaishenDeductMoney 0 1).2 ∧
      mixedAgent.takenTill (mixedAgent.zjdCaishenDeductMoney 0 1).2 "jing_bi" = 600 :=
  ⟨(caishen_fewest_coins 0 1 mixedAgent _).1 2 (Prod.ext (by decide +kernel) rfl),
    by decide +kernel⟩

end Agent

end JyQipai.Zajindan
