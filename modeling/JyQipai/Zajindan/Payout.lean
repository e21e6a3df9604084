import JyQipai.Zajindan.CarryOver
import JyQipai.Zajindan.Made

/-!
# The payout of a skill

The strike that opens the egg of a skill pays what the egg was worth before the skill was created
on it.  A strike opens eggs that were closed and pays awards that were not taken; as long as eggs
are left that count, the first award is one of the first six.
-/

namespace JyQipai.Zajindan.Room

open Lib

def GameData.Closed (g : GameData) (i : Nat) : Prop := ∃ s, g.statusAt i = some s ∧ s ≠ -1

def untaken (eggs : List Egg) (i : Nat) : Bool := (eggs[i - 1]?).any fun e => !e.isGetAward

def takenNum (eggs : List Egg) : Nat :=
  (List.range' 1 realRateEggsNum).countP fun i => !untaken eggs i

structure GameData.Ready (g : GameData) : Prop where
  status : ∃ l, g.eggsStatus = some l ∧ l.length = totalEggsNum ∧ (∀ s ∈ l, -1 ≤ s) ∧
    l.count (-1) ≤ g.openedEggNum
  openStatus : ∃ l, g.eggsOpenStatus = some l ∧ l.length = totalEggsNum

section Eggs

variable {g : GameData} {l : List Int} {i j : Nat}

theorem GameData.closed_iff (hl : g.eggsStatus = some l) :
    g.Closed i ↔ 0 < i ∧ ∃ s, l[i - 1]? = some s ∧ s ≠ -1 := by
  unfold GameData.Closed GameData.statusAt
  rw [hl]
  by_cases hi : i = 0
  · simp [hi]
  · simp [hi, Nat.pos_of_ne_zero hi]

def closeAll (l : List Int) (eggs : List Nat) : List Int :=
  eggs.foldl (fun l i => l.set (i - 1) (-1)) l

theorem foldl_setStatus (g : GameData) (eggs : List Nat) :
    eggs.foldl (fun g i => g.setStatus i (-1)) g =
      { g with eggsStatus := g.eggsStatus.map fun l => closeAll l eggs } := by
  induction eggs generalizing g with
  | nil => simp [closeAll]
  | cons i eggs ih =>
      rw [List.foldl_cons, ih]
      simp [GameData.setStatus, closeAll, Function.comp_def]

theorem length_closeAll (l : List Int) (eggs : List Nat) :
    (closeAll l eggs).length = l.length := by
  induction eggs generalizing l with
  | nil => rfl
  | cons i eggs ih => exact (ih _).trans List.length_set

theorem closeAll_ge (eggs : List Nat) (hl : ∀ s ∈ l, -1 ≤ s) : ∀ s ∈ closeAll l eggs, -1 ≤ s := by
  induction eggs generalizing l with
  | nil => exact hl
  | cons i eggs ih =>
      refine ih fun s hs => ?_
      rcases List.mem_or_eq_of_mem_set hs with hs | rfl
      · exact hl s hs
      · exact le_rfl

theorem count_set_le (l : List Int) (i : Nat) (a : Int) :
    (l.set i a).count (-1) ≤ l.count (-1) + (if a = -1 then 1 else 0) := by
  by_cases hi : i < l.length
  · rw [List.count_set hi]
    simp only [beq_iff_eq]
    omega
  · rw [List.set_eq_of_length_le (by omega)]
    omega

theorem count_closeAll_le (l : List Int) (eggs : List Nat) :
    (closeAll l eggs).count (-1) ≤ l.count (-1) + eggs.length := by
  induction eggs generalizing l with
  | nil => exact le_rfl
  | cons i eggs ih =>
      have hrest := ih (l.set (i - 1) (-1))
      have hset := count_set_le l (i - 1) (-1)
      rw [if_pos rfl] at hset
      rw [List.length_cons]
      exact hrest.trans (by omega)

theorem getElem?_closeAll (eggs : List Nat) (hpos : ∀ j ∈ eggs, 0 < j) (hi : 0 < i) :
    (closeAll l eggs)[i - 1]? =
      if i ∈ eggs then (l[i - 1]?).map fun _ => -1 else l[i - 1]? := by
  induction eggs generalizing l with
  | nil => rfl
  | cons j eggs ih =>
      have hj := hpos j List.mem_cons_self
      have hset : (l.set (j - 1) (-1))[i - 1]? =
          if i = j then (l[i - 1]?).map fun _ => -1 else l[i - 1]? := by
        rw [List.getElem?_set]
        by_cases hij : i = j
        · subst hij
          simp only [if_true]
          split
          next hlt => rw [List.getElem?_eq_getElem hlt]; rfl
          next hlt => rw [List.getElem?_eq_none (by omega)]; rfl
        · rw [if_neg (by omega), if_neg hij]
      change (closeAll (l.set (j - 1) (-1)) eggs)[i - 1]? = _
      rw [ih fun k hk => hpos k (List.mem_cons_of_mem _ hk), hset]
      by_cases hij : i = j
      · subst hij
        simp [Function.comp_def]
      · simp [hij]

theorem goodEggs_eq (hl : g.eggsStatus = some l) :
    g.goodEggs = (l.zipIdx.filter fun (s, _) => s ≠ -1).map fun (_, i) => i + 1 := by
  rw [GameData.goodEggs, hl]
  rfl

theorem mem_goodEggs (hl : g.eggsStatus = some l) : i ∈ g.goodEggs ↔ g.Closed i := by
  rw [goodEggs_eq hl, GameData.closed_iff hl]
  constructor
  · intro h
    obtain ⟨⟨s, k⟩, hp, rfl⟩ := List.mem_map.mp h
    obtain ⟨hmem, hs⟩ := List.mem_filter.mp hp
    exact ⟨Nat.succ_pos k, s, List.mem_zipIdx_iff_getElem?.mp hmem, of_decide_eq_true hs⟩
  · rintro ⟨hpos, s, hs, hne⟩
    exact List.mem_map.mpr ⟨(s, i - 1), List.mem_filter.mpr
      ⟨List.mem_zipIdx_iff_getElem?.mpr hs, decide_eq_true hne⟩, by dsimp only; omega⟩

theorem pairwise_places {α : Type} (l : List α) (p : α × Nat → Bool) :
    ((l.zipIdx.filter p).map fun (_, i) => i + 1).Pairwise (· < ·) := by
  have hrange : (l.zipIdx.map Prod.snd).Pairwise (· < ·) := by
    rw [List.zipIdx_map_snd]
    exact List.pairwise_lt_range'
  rw [List.pairwise_map] at hrange ⊢
  exact (hrange.sublist List.filter_sublist).imp fun h => Nat.succ_lt_succ h

theorem nodup_goodEggs (g : GameData) : g.goodEggs.Nodup :=
  (pairwise_places (g.eggsStatus.getD []) _).imp Nat.ne_of_lt

theorem length_goodEggs (hl : g.eggsStatus = some l) :
    g.goodEggs.length + l.count (-1) = l.length := by
  have hfilter : (l.zipIdx.filter fun (s, _) => decide (s ≠ -1)).length =
      (l.filter fun s => decide (s ≠ -1)).length := by
    conv_rhs => rw [← List.zipIdx_map_fst 0 l, List.filter_map, List.length_map]
    rfl
  rw [goodEggs_eq hl, List.length_map, hfilter, ← List.countP_eq_length_filter, List.count,
    Nat.add_comm]
  have hsplit := l.length_eq_countP_add_countP (fun s => s == -1)
  rw [hsplit]
  congr 1
  exact List.countP_congr fun s _ => by simp

theorem pickEggs_sure (n : Nat) (good : List Nat) (hlen : n ≤ good.length) (hgood : good.Nodup) :
    Draw.Sure (GameData.pickEggs n good) fun eggs =>
      eggs.length = n ∧ eggs.Nodup ∧ ∀ i ∈ eggs, i ∈ good := by
  induction n generalizing good with
  | zero => exact .pure ⟨rfl, List.nodup_nil, List.forall_mem_nil _⟩
  | succ n ih =>
      have hne : good ≠ [] := List.length_pos_iff.mp (by omega)
      refine .bind (Draw.Sure.choose hne) fun egg hegg => ?_
      have hlen' : n ≤ (good.erase egg).length := by
        rw [List.length_erase_of_mem hegg]
        omega
      refine .bind (ih _ hlen' (hgood.erase egg)) fun eggs heggs => .pure ?_
      obtain ⟨heggs, hnodup, hmem⟩ := heggs
      refine ⟨by rw [List.length_cons, heggs], List.nodup_cons.mpr ⟨fun h => ?_, hnodup⟩, ?_⟩
      · exact (hgood.mem_erase_iff.mp (hmem egg h)).1 rfl
      · intro i hi
        rcases List.mem_cons.mp hi with rfl | hi
        · exact hegg
        · exact List.mem_of_mem_erase (hmem i hi)

theorem hammerEggs_spec (hready : g.Ready) (hi : g.Closed i) :
    (g.hammerEggs i).Nodup ∧ (∀ j ∈ g.hammerEggs i, g.Closed j) ∧
      ((g.hammerEggs i).length = 1 ∨ (g.hammerEggs i).length = 2 ∨
        (g.hammerEggs i).length = 3) := by
  obtain ⟨l, hl, hlen, -, -⟩ := hready.status
  obtain ⟨hpos, s, hs, -⟩ := (GameData.closed_iff hl).mp hi
  have hle : i ≤ 12 := by
    obtain ⟨hlt, -⟩ := List.getElem?_eq_some_iff.mp hs
    have hlen' : l.length = 12 := hlen
    omega
  let left := if i = 1 then totalEggsNum else i - 1
  let right := if i = totalEggsNum then 1 else i + 1
  have hring : left ≠ i ∧ right ≠ i ∧ left ≠ right ∧ 0 < left ∧ left ≤ 12 ∧ 0 < right ∧
      right ≤ 12 := by
    have hleft : left = if i = 1 then 12 else i - 1 := rfl
    have hright : right = if i = 12 then 1 else i + 1 := rfl
    split at hleft <;> split at hright <;> omega
  obtain ⟨hleft, hright, hne, hlpos, hlle, hrpos, hrle⟩ := hring
  have hsub : (g.hammerEggs i).Sublist [i, left, right] :=
    List.Sublist.cons_cons i List.filter_sublist
  refine ⟨hsub.nodup (by simp [hleft.symm, hright.symm, hne]), fun j hj => ?_, ?_⟩
  · rcases List.mem_cons.mp hj with rfl | hj
    · exact hi
    · obtain ⟨hmem, hopen⟩ := List.mem_filter.mp hj
      have hj : 0 < j ∧ j ≤ 12 := by
        rcases List.mem_cons.mp hmem with rfl | hmem
        · exact ⟨hlpos, hlle⟩
        · rw [List.mem_singleton.mp hmem]
          exact ⟨hrpos, hrle⟩
      have hlt : j - 1 < l.length := by
        have hlen' : l.length = 12 := hlen
        omega
      rw [GameData.closed_iff hl]
      refine ⟨hj.1, l[j - 1], List.getElem?_eq_getElem hlt, fun heq => ?_⟩
      refine of_decide_eq_true hopen ?_
      rw [GameData.statusAt, hl, if_neg (by omega)]
      exact (List.getElem?_eq_getElem hlt).trans (congrArg some heq)
  · have hle3 := hsub.length_le
    have hpos : 0 < (g.hammerEggs i).length := List.length_pos_of_mem List.mem_cons_self
    simp only [List.length_cons, List.length_nil] at hle3
    omega

end Eggs

/-! ## The awards -/

structure Standing (cfg : Config) (T : AwardType) (key : Nat) (value : Int) (g : GameData) :
    Prop where
  skill : T ∈ [.skyGirlCastFlower, .bigHammer, .free]
  total : g.awardData.length = totalEggsNum
  key_pos : 0 < key
  key_le : key ≤ realRateEggsNum
  type : ∀ i e, g.awardData[i]? = some e →
    e.awardType = if i + 1 ∈ places key T then T else .normal
  pays : ∀ group ∈ payouts key T, (group.map (awardAt cfg g.awardData)).sum = value
  ready : g.Ready
  taken : takenNum g.awardData ≤ g.openedEggNum
  whole : untaken g.awardData key = true → ∀ i ∈ places key T, untaken g.awardData i = true

structure Opens (cfg : Config) (T : AwardType) (key : Nat) (g g' : GameData)
    (opened : List Opened) (marked : List Nat) : Prop where
  shape : shape g'.awardData = shape g.awardData
  money : g'.baseMoney = g.baseMoney
  num : g'.openedEggNum = g.openedEggNum + opened.length
  eggs_nodup : (opened.map Opened.eggNo).Nodup
  eggs_closed : ∀ o ∈ opened, g.Closed o.eggNo
  closed : ∀ i, g'.Closed i ↔ g.Closed i ∧ i ∉ opened.map Opened.eggNo
  places_nodup : (opened.map Opened.awardIndex).Nodup
  places_marked : ∀ o ∈ opened, o.awardIndex ∈ marked
  marked_pos : ∀ i ∈ marked, 0 < i
  marked_untaken : ∀ i ∈ marked, untaken g.awardData i = true
  rest : ∀ i, 0 < i → untaken g'.awardData i = (untaken g.awardData i && decide (i ∉ marked))
  one : marked = [] ∨ 0 < opened.length ∧ ∃ k, ∀ i ∈ marked, i ≤ realRateEggsNum → i = k
  together : (∃ i ∈ marked, i ∈ places key T) → key ∈ marked
  pays : key ∈ marked → opened.map Opened.awardIndex ∈ payouts key T ∧
    ∀ o ∈ opened, o.awardMoney = awardAt cfg g.awardData o.awardIndex * g.baseMoney
  ready : g'.Ready

section Awards

variable {cfg : Config} {T : AwardType} {key i k : Nat} {value : Int} {g g' : GameData} {e : Egg}

theorem places_sorted (hkey : key ≤ realRateEggsNum) : (places key T).Pairwise (· < ·) := by
  have hkey' : key ≤ 6 := hkey
  cases T with
  | normal => exact .nil
  | openAll => exact .nil
  | skyGirlCastFlower => simp [places, payouts, realRateEggsNum]; omega
  | bigHammer => simp [places, payouts, realRateEggsNum]; omega
  | free => simp [places, payouts, realRateEggsNum]; omega

theorem payouts_ne_nil {group : List Nat} (h : group ∈ payouts key T) : group ≠ [] := by
  rintro rfl
  cases T with
  | normal => cases h
  | openAll => cases h
  | skyGirlCastFlower => simp [payouts] at h
  | bigHammer => simp [payouts] at h
  | free => simp [payouts] at h

theorem key_mem_payout (hT : T ≠ .bigHammer) {group : List Nat} (h : group ∈ payouts key T) :
    key ∈ group := by
  cases T with
  | normal => cases h
  | openAll => cases h
  | skyGirlCastFlower => exact List.mem_singleton.mp h ▸ List.mem_cons_self
  | bigHammer => exact absurd rfl hT
  | free => exact List.mem_singleton.mp h ▸ List.mem_cons_self

theorem key_mem_places (hT : T ∈ [.skyGirlCastFlower, .bigHammer, .free]) :
    key ∈ places key T := by
  simp only [List.mem_cons, List.not_mem_nil, or_false] at hT
  rcases hT with rfl | rfl | rfl <;> exact List.mem_cons_self

theorem eq_key_of_mem_places (hi : i ∈ places key T) (hle : i ≤ realRateEggsNum) : i = key := by
  have hle' : i ≤ 6 := hle
  cases T with
  | normal => cases hi
  | openAll => cases hi
  | skyGirlCastFlower => simp [places, payouts, realRateEggsNum] at hi; omega
  | bigHammer => simp [places, payouts, realRateEggsNum] at hi; omega
  | free => simp [places, payouts, realRateEggsNum] at hi; omega

theorem places_le (hkey : key ≤ realRateEggsNum) (hi : i ∈ places key T) : i ≤ totalEggsNum := by
  have hkey' : key ≤ 6 := hkey
  rw [totalEggsNum]
  cases T with
  | normal => cases hi
  | openAll => cases hi
  | skyGirlCastFlower => simp [places, payouts, realRateEggsNum] at hi; omega
  | bigHammer => simp [places, payouts, realRateEggsNum] at hi; omega
  | free => simp [places, payouts, realRateEggsNum] at hi; omega

theorem untaken_iff {eggs : List Egg} :
    untaken eggs i = true ↔ ∃ e, eggs[i - 1]? = some e ∧ e.isGetAward = false := by
  rw [untaken, Option.any_eq_true]
  exact exists_congr fun e => and_congr_right fun _ => by rw [Bool.not_eq_true']

theorem Standing.firstAward (h : Standing cfg T key value g)
    (hlt : g.openedEggNum < realRateEggsNum) :
    ∃ e k, g.firstAward = some (e, k) ∧ 0 < k ∧ k ≤ realRateEggsNum ∧
      g.awardData[k - 1]? = some e ∧ e.isGetAward = false := by
  obtain ⟨i, hi, hleft⟩ : ∃ i ∈ List.range' 1 realRateEggsNum,
      untaken g.awardData i = true := by
    by_contra hnot
    push Not at hnot
    have hall : takenNum g.awardData = (List.range' 1 realRateEggsNum).length :=
      List.countP_eq_length.mpr fun i hi => by simpa using hnot i hi
    rw [List.length_range'] at hall
    have := h.taken
    omega
  obtain ⟨hpos, hle⟩ := List.mem_range'_1.mp hi
  obtain ⟨a, ha, hgot⟩ := untaken_iff.mp hleft
  have hmem : (a, i - 1) ∈ g.awardData.zipIdx := List.mem_zipIdx_iff_getElem?.mpr ha
  unfold GameData.firstAward
  generalize hfind : List.find? _ g.awardData.zipIdx = found
  cases found with
  | none => simpa [hgot] using List.find?_eq_none.mp hfind _ hmem
  | some p =>
      obtain ⟨e, j⟩ := p
      obtain ⟨he, n, hn, heq, hbefore⟩ := List.find?_eq_some_iff_getElem.mp hfind
      have hj : j = n := by
        rw [List.getElem_zipIdx] at heq
        have := (Prod.mk.inj heq).2
        omega
      have hj' : j < i := by
        by_contra hnot
        have hlt' : i - 1 < g.awardData.zipIdx.length := by omega
        have := hbefore (i - 1) (by omega)
        rw [List.getElem_zipIdx] at this
        obtain ⟨hlt'', hget⟩ := List.getElem?_eq_some_iff.mp ha
        simp [hget, hgot] at this
      refine ⟨e, j + 1, rfl, Nat.succ_pos j, ?_, ?_, ?_⟩
      · omega
      · exact List.mem_zipIdx_iff_getElem?.mp (List.mem_of_find?_eq_some hfind)
      · simpa using he

theorem Standing.partIndexes (h : Standing cfg T key value g)
    (hkey : untaken g.awardData key = true) : g.partIndexes T = places key T := by
  have hT : T ≠ .normal := by
    rintro rfl
    exact absurd h.skill (by decide)
  refine List.Pairwise.eq_of_mem_iff (pairwise_places _ _) (places_sorted h.key_le) fun i => ?_
  constructor
  · intro hi
    obtain ⟨⟨e, j⟩, hmem, rfl⟩ := List.mem_map.mp hi
    obtain ⟨hget, hpart⟩ := List.mem_filter.mp hmem
    have htype := h.type j e (List.mem_zipIdx_iff_getElem?.mp hget)
    by_contra hnot
    rw [if_neg hnot, type_of_isPart hpart] at htype
    exact hT htype
  · intro hi
    have hpos := places_pos h.key_pos hi
    obtain ⟨e, he, hgot⟩ := untaken_iff.mp (h.whole hkey i hi)
    refine List.mem_map.mpr ⟨(e, i - 1), List.mem_filter.mpr
      ⟨List.mem_zipIdx_iff_getElem?.mpr he, ?_⟩, by dsimp only; omega⟩
    have htype := h.type (i - 1) e he
    rw [show i - 1 + 1 = i by omega, if_pos hi] at htype
    simp [isPart, htype, hgot]

theorem Standing.goodEggs (h : Standing cfg T key value g)
    (hlt : g.openedEggNum < realRateEggsNum) : 7 ≤ g.goodEggs.length := by
  obtain ⟨l, hl, hlen, -, hcount⟩ := h.ready.status
  have hgood := length_goodEggs hl
  have hlen' : l.length = 12 := hlen
  have hlt' : g.openedEggNum < 6 := hlt
  omega

theorem map_zip {eggs indexes : List Nat} (h : eggs.length = indexes.length) :
    (eggs.zip indexes).map Prod.fst = eggs ∧ (eggs.zip indexes).map Prod.snd = indexes :=
  ⟨List.map_fst_zip h.le, List.map_snd_zip h.ge⟩

/-- The eggs for an award are closed ones, and the places are a payout of the skill. -/
def Struck (T : AwardType) (key : Nat) (g : GameData) (e : Egg) (k : Nat)
    (pairs : List (Nat × Nat)) : Prop :=
  (pairs.map Prod.fst).Nodup ∧ (∀ i ∈ pairs.map Prod.fst, g.Closed i) ∧
    (e.awardType = .normal ∧ k ∉ places key T ∧ pairs.map Prod.snd = [k] ∨
      e.awardType ≠ .normal ∧ k = key ∧ pairs.map Prod.snd ∈ payouts key T)

theorem getSkillEggs_hammer (h : Standing cfg .bigHammer key value g) (hi : g.Closed i)
    (he : e.awardType = .bigHammer) :
    Draw.Sure ((g.takeAward key).getSkillEggs key .bigHammer i)
      (Struck .bigHammer key g e key) := by
  obtain ⟨hnodup, hclosed, hlen⟩ := hammerEggs_spec h.ready hi
  have hkey := h.key_le
  have hspec : (GameData.hammerIndexes key (g.hammerEggs i).length).length =
      (g.hammerEggs i).length ∧
      GameData.hammerIndexes key (g.hammerEggs i).length ∈ payouts key .bigHammer := by
    rcases hlen with h | h | h <;> rw [h] <;> simp [GameData.hammerIndexes, payouts]
  obtain ⟨hfst, hsnd⟩ := map_zip hspec.1.symm
  have hle : (GameData.hammerIndexes key (g.hammerEggs i).length).all fun i =>
      i ≤ (g.takeAward key).awardData.length := by
    rw [List.all_eq_true]
    intro j hj
    have hmem : j ∈ places key .bigHammer := List.mem_flatten.mpr ⟨_, hspec.2, hj⟩
    rw [GameData.takeAward, List.length_modify, h.total]
    exact decide_eq_true (places_le h.key_le hmem)
  unfold GameData.getSkillEggs
  rw [if_pos rfl]
  dsimp only
  rw [show (g.takeAward key).hammerEggs i = g.hammerEggs i from rfl, if_pos hle]
  refine .pure ⟨hfst.symm ▸ hnodup, hfst.symm ▸ hclosed, .inr ⟨by rw [he]; decide, rfl, ?_⟩⟩
  rw [hsnd]
  exact hspec.2

theorem getSkillEggs_parts (h : Standing cfg T key value g)
    (hlt : g.openedEggNum < realRateEggsNum) (hi : g.Closed i) (hhammer : T ≠ .bigHammer)
    (hkey : untaken g.awardData key = true) (he : e.awardType = T) :
    Draw.Sure (g.getSkillEggs key T i) (Struck T key g e key) := by
  obtain ⟨l, hl, -, -, -⟩ := h.ready.status
  have hgood := h.goodEggs hlt
  have hT : T = .skyGirlCastFlower ∨ T = .free := by
    have := h.skill
    simpa [hhammer] using this
  have hpayouts : payouts key T = [places key T] ∧ 0 < (places key T).length ∧
      (places key T).length ≤ 3 := by
    rcases hT with rfl | rfl
    · exact ⟨rfl, Nat.succ_pos 2, le_rfl⟩
    · exact ⟨rfl, Nat.succ_pos 1, Nat.le_succ 2⟩
  obtain ⟨hpayouts, hpos, hle⟩ := hpayouts
  have hstruck (eggs : List Nat) (hlen : eggs.length = (places key T).length)
      (hnodup : eggs.Nodup) (hclosed : ∀ j ∈ eggs, g.Closed j) :
      Struck T key g e key (eggs.zip (places key T)) := by
    obtain ⟨hfst, hsnd⟩ := map_zip hlen
    refine ⟨hfst.symm ▸ hnodup, hfst.symm ▸ hclosed, .inr ⟨?_, rfl, ?_⟩⟩
    · rw [he]
      rcases hT with rfl | rfl <;> nofun
    · rw [hsnd, hpayouts]
      exact List.mem_singleton.mpr rfl
  unfold GameData.getSkillEggs
  rw [if_neg hhammer]
  dsimp only
  rw [h.partIndexes hkey, if_neg (by omega)]
  split
  · -- the egg that was struck is one of them
    have hmem : i ∈ g.goodEggs := (mem_goodEggs hl).mpr hi
    have hnodup := nodup_goodEggs g
    have hlen : (g.goodEggs.erase i).length = g.goodEggs.length - 1 :=
      List.length_erase_of_mem hmem
    refine .bind (pickEggs_sure _ _ (by omega) (hnodup.erase i)) fun eggs heggs => .pure ?_
    obtain ⟨hlen, heggs, hsub⟩ := heggs
    refine hstruck (i :: eggs) ?_ (List.nodup_cons.mpr ⟨fun hin => ?_, heggs⟩) ?_
    · rw [List.length_cons, hlen]
      omega
    · exact (hnodup.mem_erase_iff.mp (hsub i hin)).1 rfl
    · intro j hj
      rcases List.mem_cons.mp hj with rfl | hj
      · exact hi
      · exact (mem_goodEggs hl).mp (List.mem_of_mem_erase (hsub j hj))
  · refine .bind (pickEggs_sure _ _ (by omega) (nodup_goodEggs g)) fun eggs heggs => .pure ?_
    obtain ⟨hlen, heggs, hsub⟩ := heggs
    exact hstruck eggs hlen heggs fun j hj => (mem_goodEggs hl).mp (hsub j hj)

end Awards

section Strike

variable {cfg : Config} {T : AwardType} {key i k : Nat} {value : Int} {g g' : GameData} {e : Egg}

def takeAll (eggs : List Egg) (indexes : List Nat) : List Egg :=
  indexes.foldl (fun eggs i => eggs.modify (i - 1) fun e => { e with isGetAward := true }) eggs

theorem foldl_takeAward (g : GameData) (opened : List Opened) :
    opened.foldl (fun g o => g.takeAward o.awardIndex) g =
      { g with awardData := takeAll g.awardData (opened.map Opened.awardIndex) } := by
  induction opened generalizing g with
  | nil => rfl
  | cons o opened ih => exact ih _

theorem untaken_takeAll (eggs : List Egg) {indexes : List Nat} (hpos : ∀ j ∈ indexes, 0 < j)
    (hi : 0 < i) :
    untaken (takeAll eggs indexes) i = (untaken eggs i && decide (i ∉ indexes)) := by
  induction indexes generalizing eggs with
  | nil => simp [takeAll]
  | cons j indexes ih =>
      have hj := hpos j List.mem_cons_self
      have hset : untaken (eggs.modify (j - 1) fun e => { e with isGetAward := true }) i =
          (untaken eggs i && decide (i ≠ j)) := by
        rw [untaken, untaken, List.getElem?_modify]
        by_cases hij : i = j
        · subst hij
          cases eggs[i - 1]? <;> simp
        · have hne : ¬j - 1 = i - 1 := by omega
          cases eggs[i - 1]? <;> simp [hij, hne]
      change untaken (takeAll (eggs.modify (j - 1) _) indexes) i = _
      rw [ih _ fun a ha => hpos a (List.mem_cons_of_mem _ ha), hset, Bool.and_assoc]
      congr 1
      simp [not_or]

theorem awardAt_congr {eggs eggs' : List Egg} (h : shape eggs' = shape eggs) (i : Nat) :
    awardAt cfg eggs' i = awardAt cfg eggs i := by
  have hid (eggs : List Egg) : (eggs[i - 1]?).map Egg.id = ((shape eggs)[i - 1]?).map Prod.fst := by
    rw [shape, List.getElem?_map, Option.map_map]
    rfl
  rw [awardAt, awardAt, hid, hid, h]

theorem laterOpen_sure (status openStatus : Int) :
    Draw.Sure (GameData.laterOpen status openStatus) fun _ => True := by
  refine .bind .unit fun first _ => ?_
  split
  · exact .bind (P := fun _ => True) (.pure trivial) fun step _ => .pure trivial
  · exact .bind .unit fun second _ =>
      .bind (P := fun _ => True) (.pure trivial) fun step _ => .pure trivial

theorem openEggs_sure (g : GameData) (hit : Nat) (status openStatus : Int)
    (opened : List Opened) :
    Draw.Sure (GameData.openEggs g hit status openStatus opened) fun g' => ∃ o,
      g' = { g with
        eggsStatus := g.eggsStatus.map fun l => closeAll l (opened.map Opened.eggNo)
        eggsOpenStatus := o } ∧
        o.map List.length = g.eggsOpenStatus.map List.length := by
  unfold GameData.openEggs
  dsimp only
  rw [foldl_setStatus]
  split
  · exact .pure ⟨_, rfl, rfl⟩
  · refine .bind (laterOpen_sure status openStatus) fun openStatus _ => .pure ⟨_, rfl, ?_⟩
    rw [Option.map_map]
    exact Option.map_congr fun l _ => List.length_set

theorem take_eq (g : GameData) (opened : List Opened) :
    g.take opened = { g with
      awardData := takeAll g.awardData (opened.map Opened.awardIndex)
      openedEggNum := g.openedEggNum + opened.length
      replaceMoney := (g.take opened).replaceMoney } := by
  unfold GameData.take
  rw [foldl_takeAward]

def markedBy (e : Egg) (k : Nat) (indexes : List Nat) : List Nat :=
  if e.awardType = .bigHammer then k :: indexes else indexes

def marked (g : GameData) (e : Egg) (k : Nat) : GameData :=
  if e.awardType = .bigHammer then g.takeAward k else g

theorem marked_eq (g : GameData) (e : Egg) (k : Nat) :
    marked g e k = { g with awardData := (marked g e k).awardData } := by
  unfold marked
  split <;> rfl

theorem shape_marked (g : GameData) (e : Egg) (k : Nat) :
    shape (marked g e k).awardData = shape g.awardData := by
  unfold marked
  split
  · exact g.shape_takeAward k
  · rfl

theorem untaken_marked (g : GameData) (e : Egg) (hk : 0 < k) {indexes : List Nat}
    (hpos : ∀ j ∈ indexes, 0 < j) (hi : 0 < i) :
    untaken (takeAll (marked g e k).awardData indexes) i =
      (untaken g.awardData i && decide (i ∉ markedBy e k indexes)) := by
  unfold marked markedBy
  split
  · exact untaken_takeAll g.awardData (List.forall_mem_cons.mpr ⟨hk, hpos⟩) hi
  · exact untaken_takeAll g.awardData hpos hi

def afterStrike (g : GameData) (opened : List Opened) (o : Option (List Int)) : GameData :=
  { g.take opened with
    eggsStatus := (g.take opened).eggsStatus.map fun l => closeAll l (opened.map Opened.eggNo)
    eggsOpenStatus := o }

theorem opens_of_struck (h : Standing cfg T key value g) (hk : 0 < k)
    (he : g.awardData[k - 1]? = some e) (hgot : e.isGetAward = false)
    {pairs : List (Nat × Nat)} (hpairs : Struck T key g e k pairs) {o : Option (List Int)}
    (ho : o.map List.length = g.eggsOpenStatus.map List.length) :
    Opens cfg T key g
      (afterStrike (marked g e k) (pairs.map ((marked g e k).openedOf cfg)) o)
      (pairs.map ((marked g e k).openedOf cfg)) (markedBy e k (pairs.map Prod.snd)) := by
  obtain ⟨hnodup, hclosed, hcases⟩ := hpairs
  obtain ⟨l, hl, hlen, hge, hcount⟩ := h.ready.status
  obtain ⟨lo, hlo, hlolen⟩ := h.ready.openStatus
  let opened := pairs.map ((marked g e k).openedOf cfg)
  have hkey : untaken g.awardData k = true := untaken_iff.mpr ⟨e, he, hgot⟩
  have heggs : opened.map Opened.eggNo = pairs.map Prod.fst := List.map_map
  have hidx : opened.map Opened.awardIndex = pairs.map Prod.snd := List.map_map
  have hnum : opened.length = pairs.length := List.length_map _
  obtain ⟨hidxs, hin, hidxs_nodup, hne⟩ : (∀ j ∈ pairs.map Prod.snd,
      0 < j ∧ untaken g.awardData j = true) ∧
      (∀ j ∈ pairs.map Prod.snd, j ≤ realRateEggsNum → j = k) ∧
      (pairs.map Prod.snd).Nodup ∧ pairs.map Prod.snd ≠ [] := by
    rcases hcases with ⟨-, -, hsnd⟩ | ⟨-, rfl, hsnd⟩
    · rw [hsnd]
      exact ⟨List.forall_mem_singleton.mpr ⟨hk, hkey⟩, List.forall_mem_singleton.mpr fun _ => rfl,
        List.nodup_singleton k, List.cons_ne_nil _ _⟩
    · have hmem (j : Nat) (hj : j ∈ pairs.map Prod.snd) : j ∈ places k T :=
        List.mem_flatten.mpr ⟨_, hsnd, hj⟩
      refine ⟨fun j hj => ⟨places_pos hk (hmem j hj), h.whole hkey j (hmem j hj)⟩,
        fun j hj => eq_key_of_mem_places (hmem j hj), ?_, payouts_ne_nil hsnd⟩
      exact (List.sublist_flatten_of_mem hsnd).nodup ((places_sorted h.key_le).imp Nat.ne_of_lt)
  have hpos (j : Nat) (hj : j ∈ pairs.map Prod.snd) : 0 < j := (hidxs j hj).1
  have hmarked (j : Nat) (hj : j ∈ markedBy e k (pairs.map Prod.snd)) :
      j = k ∨ j ∈ pairs.map Prod.snd := by
    unfold markedBy at hj
    split at hj
    · exact List.mem_cons.mp hj
    · exact .inr hj
  have hstatus : (afterStrike (marked g e k) opened o).eggsStatus =
      some (closeAll l (pairs.map Prod.fst)) := by
    rw [afterStrike, take_eq, marked_eq, heggs]
    simp [hl]
  have hstruck (j : Nat) (hj : j ∈ pairs.map Prod.fst) : 0 < j :=
    ((GameData.closed_iff hl).mp (hclosed j hj)).1
  have huntaken (j : Nat) (hj : 0 < j) :
      untaken (afterStrike (marked g e k) opened o).awardData j =
        (untaken g.awardData j && decide (j ∉ markedBy e k (pairs.map Prod.snd))) := by
    rw [afterStrike, take_eq, hidx]
    exact untaken_marked g e hk hpos hj
  have hsub (j : Nat) (hj : j ∈ pairs.map Prod.snd) : j ∈ markedBy e k (pairs.map Prod.snd) := by
    unfold markedBy
    split
    · exact List.mem_cons_of_mem _ hj
    · exact hj
  have htypek : e.awardType = if k ∈ places key T then T else .normal := by
    have := h.type (k - 1) e he
    rwa [show k - 1 + 1 = k by omega] at this
  exact
    { shape := by
        rw [afterStrike, take_eq]
        refine Eq.trans ?_ (shape_marked g e k)
        have := (marked g e k).shape_take opened
        rwa [take_eq] at this
      money := by
        rw [afterStrike, take_eq, marked_eq]
      num := by
        rw [afterStrike, take_eq, marked_eq]
      eggs_nodup := heggs ▸ hnodup
      eggs_closed := fun a ha => hclosed _ (heggs ▸ List.mem_map_of_mem ha)
      closed := fun j => by
        rw [heggs, GameData.closed_iff hstatus, GameData.closed_iff hl, and_assoc]
        refine and_congr_right fun hj => ?_
        rw [getElem?_closeAll _ hstruck hj]
        by_cases hmem : j ∈ pairs.map Prod.fst
        · simp [hmem]
        · simp [hmem]
      places_nodup := hidx ▸ hidxs_nodup
      places_marked := fun a ha => hsub _ (hidx ▸ List.mem_map_of_mem ha)
      marked_pos := fun j hj => (hmarked j hj).elim (fun h => h ▸ hk) (hpos j)
      marked_untaken := fun j hj =>
        (hmarked j hj).elim (fun h => h ▸ hkey) fun h => (hidxs j h).2
      rest := huntaken
      one := .inr ⟨by
        rw [hnum]
        exact List.length_pos_iff.mpr fun h => hne (by rw [h]; rfl), k,
        fun j hj hle => (hmarked j hj).elim id fun h => hin j h hle⟩
      together := by
        rintro ⟨j, hj, hplace⟩
        rcases hcases with ⟨-, hnot, hsnd⟩ | ⟨hskill, rfl, hsnd⟩
        · have hjk : j = k := (hmarked j hj).elim id fun h => List.mem_singleton.mp (hsnd ▸ h)
          exact absurd (hjk ▸ hplace) hnot
        · have hT : e.awardType = T := by
            by_contra hne
            rw [htypek] at hskill hne
            split at hskill
            next hin => exact hne (if_pos hin)
            next => exact hskill rfl
          unfold markedBy
          rw [hT]
          split
          · exact List.mem_cons_self
          next hhammer => exact key_mem_payout hhammer hsnd
      pays := fun hmem => by
        rcases hcases with ⟨-, hnot, hsnd⟩ | ⟨-, rfl, hsnd⟩
        · have hjk : key = k := (hmarked key hmem).elim id fun h => List.mem_singleton.mp (hsnd ▸ h)
          exact absurd (hjk ▸ key_mem_places h.skill) hnot
        · refine ⟨hidx ▸ hsnd, fun a ha => ?_⟩
          obtain ⟨p, hp, rfl⟩ := List.mem_map.mp ha
          change _ = awardAt cfg g.awardData p.2 * g.baseMoney
          rw [← awardAt_congr (shape_marked g e k) p.2]
          have hmoney : (marked g e k).baseMoney = g.baseMoney := by rw [marked_eq]
          rw [← hmoney]
          rfl
      ready := by
        refine ⟨⟨_, hstatus, (length_closeAll _ _).trans hlen, closeAll_ge _ hge, ?_⟩, ?_⟩
        · have hle := count_closeAll_le l (pairs.map Prod.fst)
          rw [List.length_map] at hle
          have hnum' : (afterStrike (marked g e k) opened o).openedEggNum =
              g.openedEggNum + opened.length := by
            rw [afterStrike, take_eq, marked_eq]
          change (closeAll l _).count (-1) ≤ (afterStrike (marked g e k) opened o).openedEggNum
          omega
        · rw [hlo] at ho
          obtain ⟨lo', rfl, hlo'⟩ := Option.map_eq_some_iff.mp ho
          exact ⟨lo', rfl, hlo'.trans hlolen⟩ }

theorem strikeEggs_sure (h : Standing cfg T key value g)
    (hlt : g.openedEggNum < realRateEggsNum) (hi : g.Closed i) (hk : 0 < k)
    (hle : k ≤ realRateEggsNum) (he : g.awardData[k - 1]? = some e) (hgot : e.isGetAward = false) :
    Draw.Sure ((marked g e k).strikeEggs e k i) (Struck T key g e k) := by
  have htype := h.type (k - 1) e he
  rw [show k - 1 + 1 = k by omega] at htype
  unfold GameData.strikeEggs
  by_cases hin : k ∈ places key T
  · obtain rfl : k = key := eq_key_of_mem_places hin hle
    rw [if_pos hin] at htype
    have hnormal : e.awardType ≠ .normal := by
      rintro hnormal
      rw [htype] at hnormal
      exact absurd (hnormal ▸ h.skill) (by decide)
    have hkey : untaken g.awardData k = true := untaken_iff.mpr ⟨e, he, hgot⟩
    rw [if_neg hnormal, htype]
    by_cases hhammer : T = .bigHammer
    · subst hhammer
      rw [marked, if_pos htype]
      exact getSkillEggs_hammer h hi htype
    · rw [marked, if_neg (htype ▸ hhammer)]
      exact getSkillEggs_parts h hlt hi hhammer hkey htype
  · rw [if_neg hin] at htype
    rw [if_pos htype]
    refine .pure ⟨List.nodup_singleton i, List.forall_mem_singleton.mpr hi, .inl ⟨htype, hin, rfl⟩⟩

theorem openStrike_opens (h : Standing cfg T key value g)
    (hlt : g.openedEggNum < realRateEggsNum) (hi : g.Closed i) (status openStatus : Int)
    (tape : Tape) :
    ∃ opened g' marked, g.openStrike cfg i status openStatus tape = (.hit opened, g') ∧
      Opens cfg T key g g' opened marked := by
  obtain ⟨e, k, hfirst, hk, hle, he, hgot⟩ := h.firstAward hlt
  have hsure : Draw.Sure (do
      let pairs ← (marked g e k).strikeEggs e k i
      let opened := pairs.map ((marked g e k).openedOf cfg)
      let g' ← GameData.openEggs ((marked g e k).take opened) i status openStatus opened
      pure (opened, g') : Draw (List Opened × GameData)) fun r => ∃ marked,
        Opens cfg T key g r.2 r.1 marked := by
    refine .bind (strikeEggs_sure h hlt hi hk hle he hgot) fun pairs hpairs =>
      .bind (openEggs_sure _ _ _ _ _) ?_
    rintro _ ⟨o, rfl, ho⟩
    refine .pure ⟨_, opens_of_struck h hk he hgot hpairs ?_⟩
    rw [ho, take_eq, marked_eq]
  obtain ⟨⟨⟨opened, g'⟩, n⟩, hr, marked, hopens⟩ := hsure tape 0
  refine ⟨opened, g', marked, ?_, hopens⟩
  unfold GameData.openStrike
  rw [hfirst]
  dsimp only
  split
  · next hraised => cases hr.symm.trans hraised
  · next hhit =>
      cases hr.symm.trans hhit
      rfl

theorem setStatus_ready (h : g.Ready) (hi : g.Closed i) {s : Int} (hs : 0 ≤ s) :
    (g.setStatus i s).Ready ∧ ∀ j, (g.setStatus i s).Closed j ↔ g.Closed j := by
  obtain ⟨l, hl, hlen, hge, hcount⟩ := h.status
  obtain ⟨hpos, a, ha, hne⟩ := (GameData.closed_iff hl).mp hi
  have hl' : (g.setStatus i s).eggsStatus = some (l.set (i - 1) s) := by
    rw [GameData.setStatus, hl]
    rfl
  refine ⟨⟨⟨_, hl', List.length_set.trans hlen, fun b hb => ?_, ?_⟩, h.openStatus⟩, fun j => ?_⟩
  · rcases List.mem_or_eq_of_mem_set hb with hb | rfl
    · exact hge b hb
    · omega
  · have hle := count_set_le l (i - 1) s
    rw [if_neg (by omega)] at hle
    exact hle.trans hcount
  · rw [GameData.closed_iff hl', GameData.closed_iff hl]
    refine and_congr_right fun hj => ?_
    rw [List.getElem?_set]
    by_cases hij : i - 1 = j - 1
    · obtain rfl : i = j := by omega
      obtain ⟨hlt, -⟩ := List.getElem?_eq_some_iff.mp ha
      rw [if_pos rfl, if_pos hlt]
      exact ⟨fun _ => ⟨a, ha, hne⟩, fun _ => ⟨s, rfl, by omega⟩⟩
    · rw [if_neg hij]

theorem strike_opens (h : Standing cfg T key value g) (hlt : g.openedEggNum < realRateEggsNum)
    (eggNo : Nat) (tape : Tape) :
    g.strike cfg eggNo tape = (.refused, g) ∨
      ∃ opened g' marked, g.strike cfg eggNo tape = (.hit opened, g') ∧
        Opens cfg T key g g' opened marked := by
  obtain ⟨l, hl, hlen, hge, -⟩ := h.ready.status
  obtain ⟨lo, hlo, hlolen⟩ := h.ready.openStatus
  unfold GameData.strike
  rw [if_neg (by rw [hl]; nofun)]
  cases hstatus : g.statusAt eggNo with
  | none => exact .inl rfl
  | some status =>
      dsimp only
      by_cases hopen : status = -1
      · rw [if_pos hopen]
        exact .inl rfl
      rw [if_neg hopen]
      right
      have hi : g.Closed eggNo := ⟨status, hstatus, hopen⟩
      obtain ⟨hpos, a, ha, -⟩ := (GameData.closed_iff hl).mp hi
      have hstatus' : status = a := by
        rw [GameData.statusAt, if_neg (by omega), hl] at hstatus
        exact Option.some.inj (hstatus.symm.trans ha)
      have hnonneg : 0 ≤ status + 1 := by
        have := hge a (List.mem_of_getElem? ha)
        omega
      obtain ⟨hready, hclosed⟩ := setStatus_ready h.ready hi hnonneg
      have hlt' : eggNo - 1 < lo.length := by
        obtain ⟨hlt, -⟩ := List.getElem?_eq_some_iff.mp ha
        omega
      have hopenStatus : ((g.setStatus eggNo (status + 1)).eggsOpenStatus.getD [])[eggNo - 1]? =
          some lo[eggNo - 1] := by
        rw [show (g.setStatus eggNo (status + 1)).eggsOpenStatus = some lo from hlo]
        exact List.getElem?_eq_getElem hlt'
      rw [hopenStatus]
      dsimp only
      split
      · exact ⟨[], _, [], rfl,
          { shape := rfl
            money := rfl
            num := rfl
            eggs_nodup := List.nodup_nil
            eggs_closed := List.forall_mem_nil _
            closed := fun j => by simp [hclosed]
            places_nodup := List.nodup_nil
            places_marked := List.forall_mem_nil _
            marked_pos := List.forall_mem_nil _
            marked_untaken := List.forall_mem_nil _
            rest := fun j _ => by simp [GameData.setStatus]
            one := .inl rfl
            together := fun ⟨j, hj, _⟩ => absurd hj List.not_mem_nil
            pays := fun hmem => absurd hmem List.not_mem_nil
            ready := hready }⟩
      · have hstanding : Standing cfg T key value (g.setStatus eggNo (status + 1)) :=
          { h with ready := hready }
        obtain ⟨opened, g', marked, heq, ho⟩ := openStrike_opens hstanding hlt
          ((hclosed eggNo).mpr hi) (status + 1) lo[eggNo - 1] tape
        exact ⟨opened, g', marked, heq,
          { ho with
            eggs_closed := fun o hmem => (hclosed _).mp (ho.eggs_closed o hmem)
            closed := fun j => by rw [ho.closed j, hclosed j] }⟩

theorem countP_le_add {α : Type} {l : List α} {p q r : α → Bool}
    (h : ∀ a ∈ l, p a = true → q a = true ∨ r a = true) :
    l.countP p ≤ l.countP q + l.countP r := by
  induction l with
  | nil => exact Nat.zero_le _
  | cons a l ih =>
      have hrest := ih fun b hb => h b (List.mem_cons_of_mem _ hb)
      have ha := h a List.mem_cons_self
      rw [List.countP_cons, List.countP_cons, List.countP_cons]
      by_cases hp : p a = true
      · rcases ha hp with hq | hr
        · rw [if_pos hp, if_pos hq]
          omega
        · rw [if_pos hp, if_pos hr]
          omega
      · rw [if_neg hp]
        omega

theorem Standing.opens (h : Standing cfg T key value g) {opened : List Opened}
    {marked : List Nat} (ho : Opens cfg T key g g' opened marked) :
    Standing cfg T key value g' where
  skill := h.skill
  total := by
    have hlen := congrArg List.length ho.shape
    rw [shape, shape, List.length_map, List.length_map] at hlen
    exact hlen.trans h.total
  key_pos := h.key_pos
  key_le := h.key_le
  type := fun i e he => by
    have hshape := congrArg (fun l => l[i]?) ho.shape
    simp only [shape, List.getElem?_map, he, Option.map_some] at hshape
    obtain ⟨a, ha, heq⟩ := Option.map_eq_some_iff.mp hshape.symm
    rw [← (Prod.mk.inj heq).2]
    exact h.type i a ha
  pays := fun group hgroup => by
    rw [← h.pays group hgroup]
    congr 1
    exact List.map_congr_left fun i _ => awardAt_congr ho.shape i
  ready := ho.ready
  taken := by
    rw [ho.num]
    have hrange (i : Nat) (hi : i ∈ List.range' 1 realRateEggsNum) :
        0 < i ∧ i ≤ realRateEggsNum := by
      have := List.mem_range'_1.mp hi
      omega
    rcases ho.one with hnone | ⟨hpos, k, hk⟩
    · refine le_trans (le_of_eq (List.countP_congr fun i hi => ?_)) (h.taken.trans (by omega))
      rw [ho.rest i (hrange i hi).1, hnone]
      simp
    · -- at most one of the eggs that count is taken
      have hle : takenNum g'.awardData ≤ takenNum g.awardData +
          (List.range' 1 realRateEggsNum).count k := by
        refine countP_le_add fun i hi htaken => ?_
        obtain ⟨hipos, hile⟩ := hrange i hi
        rw [ho.rest i hipos] at htaken
        by_cases hmem : i ∈ marked
        · exact .inr (by rw [hk i hmem hile, beq_self_eq_true])
        · exact .inl (by simpa [hmem] using htaken)
      have hcount : (List.range' 1 realRateEggsNum).count k ≤ 1 :=
        List.nodup_iff_count_le_one.mp List.nodup_range' k
      have := h.taken
      omega
  whole := fun hkey i hi => by
    have hpos := places_pos h.key_pos hi
    rw [ho.rest key h.key_pos, Bool.and_eq_true, decide_eq_true_eq] at hkey
    rw [ho.rest i hpos, Bool.and_eq_true, decide_eq_true_eq]
    exact ⟨h.whole hkey.1 i hi, fun hmem => hkey.2 (ho.together ⟨i, hmem, hi⟩)⟩

end Strike

/-! ## Runs -/

def openedBy : Room.Strike → List Opened
  | .hit opened => opened
  | .refused | .raised => []

def openings (cfg : Config) : GameData → List (Nat × Tape) → List Opened
  | _, [] => []
  | g, e :: events =>
      openedBy (g.strike cfg e.1 e.2).1 ++ openings cfg (struck cfg g e) events

/-- A strike opens closed eggs, each once; that which takes the egg of the skill pays what the
egg was worth. -/
structure Fair (cfg : Config) (c : Candidate) (g : GameData) (eggNo : Nat) (tape : Tape) :
    Prop where
  passes : (g.strike cfg eggNo tape).1 ≠ .raised
  distinct : ((openedBy (g.strike cfg eggNo tape).1).map Opened.eggNo).Nodup
  closed : ∀ o ∈ openedBy (g.strike cfg eggNo tape).1, g.Closed o.eggNo
  pays : untaken g.awardData c.awardKey = true →
    untaken (g.strike cfg eggNo tape).2.awardData c.awardKey = false →
      ((openedBy (g.strike cfg eggNo tape).1).map Opened.awardMoney).sum =
        c.awardValue * g.baseMoney

section Runs

variable {cfg : Config} {T : AwardType} {key : Nat} {value : Int} {g g' : GameData}

theorem Laid.standing (h : Laid cfg T key value g.awardData)
    (hT : T ∈ [.skyGirlCastFlower, .bigHammer, .free])
    (htotal : g.awardData.length = totalEggsNum) (hready : g.Ready) :
    Standing cfg T key value g := by
  have hleft (i : Nat) (hpos : 0 < i) (hi : i ≤ totalEggsNum) :
      untaken g.awardData i = true := by
    have hlt : i - 1 < g.awardData.length := by omega
    exact untaken_iff.mpr ⟨_, List.getElem?_eq_getElem hlt,
      h.unopened _ (List.getElem_mem hlt)⟩
  refine ⟨hT, htotal, h.key_pos, h.key_le, h.type, h.pays, hready, ?_, fun _ i hi => ?_⟩
  · have hnone : takenNum g.awardData = 0 := by
      refine List.countP_eq_zero.mpr fun i hi => ?_
      obtain ⟨hpos, hle⟩ := List.mem_range'_1.mp hi
      have hle' : i < 1 + 6 := hle
      rw [hleft i hpos (by rw [totalEggsNum]; omega)]
      decide
    omega
  · exact hleft i (places_pos h.key_pos hi) (places_le h.key_le hi)

theorem Standing.struck (h : Standing cfg T key value g)
    (hlt : g.openedEggNum < realRateEggsNum) (e : Nat × Tape) :
    Standing cfg T key value (struck cfg g e) := by
  rcases strike_opens h hlt e.1 e.2 with heq | ⟨opened, g', marked, heq, ho⟩
  · rw [Room.struck, heq]
    exact h
  · rw [Room.struck, heq]
    exact h.opens ho

theorem Standing.fair {c : Candidate} (h : Standing cfg T c.awardKey c.awardValue g)
    (hlt : g.openedEggNum < realRateEggsNum) (eggNo : Nat) (tape : Tape) :
    Fair cfg c g eggNo tape := by
  rcases strike_opens h hlt eggNo tape with heq | ⟨opened, g', marked, heq, ho⟩
  · refine ⟨?_, ?_, ?_, ?_⟩
    · rw [heq]
      nofun
    · rw [heq]
      exact List.nodup_nil
    · rw [heq]
      exact List.forall_mem_nil _
    · rw [heq]
      intro hleft htaken
      rw [hleft] at htaken
      cases htaken
  · refine ⟨?_, ?_, ?_, ?_⟩
    · rw [heq]
      nofun
    · rw [heq]
      exact ho.eggs_nodup
    · rw [heq]
      exact ho.eggs_closed
    · rw [heq]
      intro hleft htaken
      have hmem : c.awardKey ∈ marked := by
        rw [ho.rest _ h.key_pos, hleft] at htaken
        simpa using htaken
      obtain ⟨hgroup, hmoney⟩ := ho.pays hmem
      calc
        (opened.map Opened.awardMoney).sum =
            (opened.map fun o => awardAt cfg g.awardData o.awardIndex * g.baseMoney).sum :=
          congrArg List.sum (List.map_congr_left hmoney)
        _ = ((opened.map Opened.awardIndex).map (awardAt cfg g.awardData)).sum *
            g.baseMoney := by
          rw [List.sum_map_mul_right, List.map_map]
          rfl
        _ = c.awardValue * g.baseMoney := by rw [h.pays _ hgroup]

theorem Standing.openings (h : Standing cfg T key value g) (events : List (Nat × Tape))
    (hok : Allowed (Room.struck cfg) Striking g events) :
    ((openings cfg g events).map Opened.eggNo).Nodup ∧
      (∀ o ∈ openings cfg g events, g.Closed o.eggNo) ∧
      ((openings cfg g events).map Opened.awardIndex).Nodup ∧
      ∀ o ∈ openings cfg g events,
        0 < o.awardIndex ∧ untaken g.awardData o.awardIndex = true := by
  induction events generalizing g with
  | nil =>
      exact ⟨List.nodup_nil, List.forall_mem_nil _, List.nodup_nil, List.forall_mem_nil _⟩
  | cons e events ih =>
      obtain ⟨hlt, hrest⟩ := hok
      obtain ⟨heggs, hclosed, hplaces, hleft⟩ := ih (h.struck hlt e) hrest
      rw [Room.openings]
      rcases strike_opens h hlt e.1 e.2 with heq | ⟨opened, g', marked, heq, ho⟩
      · rw [Room.struck, heq] at heggs hclosed hplaces hleft ⊢
        exact ⟨heggs, hclosed, hplaces, hleft⟩
      · rw [Room.struck, heq] at heggs hclosed hplaces hleft ⊢
        dsimp only [openedBy]
        have hclosed' (o : Opened) (hmem : o ∈ Room.openings cfg g' events) :=
          (ho.closed o.eggNo).mp (hclosed o hmem)
        have hleft' (o : Opened) (hmem : o ∈ Room.openings cfg g' events) :
            untaken g.awardData o.awardIndex = true ∧ o.awardIndex ∉ marked := by
          have := (hleft o hmem).2
          rw [ho.rest _ (hleft o hmem).1, Bool.and_eq_true, decide_eq_true_eq] at this
          exact this
        refine ⟨?_, List.forall_mem_append.mpr ⟨ho.eggs_closed, fun o hmem => (hclosed' o hmem).1⟩,
          ?_, List.forall_mem_append.mpr ⟨fun o hmem => ?_, fun o hmem => ?_⟩⟩
        · rw [List.map_append]
          refine List.nodup_append'.mpr ⟨ho.eggs_nodup, heggs, fun i hi hi' => ?_⟩
          obtain ⟨o, hmem, rfl⟩ := List.mem_map.mp hi'
          exact (hclosed' o hmem).2 hi
        · rw [List.map_append]
          refine List.nodup_append'.mpr ⟨ho.places_nodup, hplaces, fun i hi hi' => ?_⟩
          obtain ⟨o, hmem, rfl⟩ := List.mem_map.mp hi'
          obtain ⟨o', hmem', heq'⟩ := List.mem_map.mp hi
          exact (hleft' o hmem).2 (heq' ▸ ho.places_marked o' hmem')
        · have hmark := ho.places_marked o hmem
          exact ⟨ho.marked_pos _ hmark, ho.marked_untaken _ hmark⟩
        · exact ⟨(hleft o hmem).1, (hleft' o hmem).1⟩

/-- However the eggs were made and struck before, the egg of a skill pays what it was worth, and
nothing is opened or paid twice. -/
theorem skill_pays {hammer : HammerRow} {isChangeEgg : Bool} {old : List Egg} {money : ℚ}
    {kickback : Option Nat} {tape : Tape} {k : Nat} {r : Init × Nat}
    (hinit : initAwardData cfg hammer isChangeEgg old money kickback tape k = some r)
    {c : Candidate} (hskill : r.1.skill = some c) (hid : c.skillId ∈ [2, 3, 4]) :
    r.1.awardData.length = totalEggsNum ∧
      ∀ g : GameData, g.awardData = r.1.awardData → g.Ready →
        (∀ g', Reach (struck cfg) Striking g g' → g'.openedEggNum < realRateEggsNum →
          ∀ eggNo tape, Fair cfg c g' eggNo tape) ∧
        ∀ events, Allowed (struck cfg) Striking g events →
          ((openings cfg g events).map Opened.eggNo).Nodup ∧
            ((openings cfg g events).map Opened.awardIndex).Nodup := by
  obtain ⟨hlaid, htotal⟩ := initAwardData_laid hammer isChangeEgg old money kickback _ _ _ hinit
    c hskill hid
  have hT : partType c.skillId ∈ [.skyGirlCastFlower, .bigHammer, .free] := by
    simp only [List.mem_cons, List.not_mem_nil, or_false] at hid
    rcases hid with h | h | h <;> rw [h] <;> decide
  refine ⟨htotal, fun g hg hready => ?_⟩
  have hstanding : Standing cfg (partType c.skillId) c.awardKey c.awardValue g :=
    Laid.standing (hg ▸ hlaid) hT (hg ▸ htotal) hready
  refine ⟨fun g' hreach hlt eggNo tape => ?_, fun events hok => ?_⟩
  · have hinv : Standing cfg (partType c.skillId) c.awardKey c.awardValue g' :=
      Reach.invariant hstanding (fun _ e hs hlt => hs.struck hlt e) hreach
    exact hinv.fair hlt eggNo tape
  · obtain ⟨heggs, -, hplaces, -⟩ := hstanding.openings events hok
    exact ⟨heggs, hplaces⟩

/-- The second strike opens the free eggs, that are worth two. -/
theorem skill_pays_free :
    ((openedBy ((struck freeConfig freeGame (3, zeroTape)).strike freeConfig 5 zeroTape).1).map
      Opened.awardMoney).sum = 2 * 100 := by
  obtain ⟨-, hpays⟩ := skill_pays initAwardData_free rfl (by decide)
  have hready : freeGame.Ready := ⟨⟨_, rfl, rfl, by decide, by decide⟩, _, rfl, rfl⟩
  have hlt : freeGame.openedEggNum < realRateEggsNum := by decide
  have hfair := (hpays freeGame rfl hready).1 _ (.tail (e := (3, zeroTape)) .refl hlt)
    (by decide +kernel) 5 zeroTape
  exact hfair.pays (by decide +kernel) (by decide +kernel)

end Runs

end JyQipai.Zajindan.Room
