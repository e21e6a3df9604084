import JyQipai.Ddz.Decode

/-!
# Which shapes are classified

`get_pai_type` looks for the longest run of triples and counts everything else as wings.  A list
is accepted in every shape of a play, but not if its wings lengthen the run: then the triples that
would have to serve as wings are taken for part of the airplane.
-/

namespace JyQipai.Ddz

/-! ## Shapes -/

/-- `get_pai_type` returns a play of one of the types. -/
def AcceptedAs (ids types : List Nat) : Prop :=
  ∃ q, getPaiType ids 0 = some (some q) ∧ q.type ∈ types

/-- Triples of the `n` ranks from `s` on. -/
structure TripleRun (count : Nat → Nat) (s n : Nat) : Prop where
  low : 3 ≤ s
  high : s + n ≤ 15
  two : 2 ≤ n
  run : ∀ r, s ≤ r → r < s + n → count r = 3

structure SingleWings (count : Nat → Nat) (s n : Nat) : Prop extends TripleRun count s n where
  noFour : ∀ r, count r ≤ 3
  boss : count 16 + count 17 ≤ 1
  sum : cardSum count = 3 * n + n

structure PairWings (count : Nat → Nat) (s n : Nat) : Prop extends TripleRun count s n where
  wing : ∀ r, ¬ (s ≤ r ∧ r < s + n) → count r = 0 ∨ count r = 2 ∨ count r = 4
  sum : cardSum count = 3 * n + 2 * n

def Unextended (count : Nat → Nat) (s n : Nat) : Prop :=
  (∀ r, 3 ≤ r → r + 1 = s → count r ≠ 3) ∧ (s + n < 15 → count (s + n) ≠ 3)

def OneRun (count : Nat → Nat) : Prop :=
  ∃ s n, 3 ≤ s ∧ s + n ≤ 15 ∧ 2 ≤ n ∧ ∀ r, count r = if s ≤ r ∧ r < s + n then 3 else 0

inductive OtherShape (count : Nat → Nat) : Prop
  | group (a k : Nat) : a ∈ paiRanks → 0 < k → k ≤ 3 →
      (∀ r, count r = if r = a then k else 0) → OtherShape count
  | threeWithOne (a b : Nat) : a ∈ paiRanks → b ∈ paiRanks → a ≠ b →
      (∀ r, count r = if r = a then 3 else if r = b then 1 else 0) → OtherShape count
  | threeWithTwo (a b : Nat) : a ∈ paiRanks → b ∈ paiRanks → a ≠ b →
      (∀ r, count r = if r = a then 3 else if r = b then 2 else 0) → OtherShape count
  | shunzi (s n : Nat) : 3 ≤ s → s + n ≤ 15 → 5 ≤ n →
      (∀ r, count r = if s ≤ r ∧ r < s + n then 1 else 0) → OtherShape count
  | liandui (s n : Nat) : 3 ≤ s → s + n ≤ 15 → 3 ≤ n →
      (∀ r, count r = if s ≤ r ∧ r < s + n then 2 else 0) → OtherShape count
  | fourWithPair (a b : Nat) : a ∈ paiRanks → b ∈ paiRanks → a ≠ b →
      (∀ r, count r = if r = a then 4 else if r = b then 2 else 0) → OtherShape count
  | fourWithTwo (a b c : Nat) : a ∈ paiRanks → b ∈ paiRanks → c ∈ paiRanks → a ≠ b → a ≠ c →
      b < c → b ≠ 16 →
      (∀ r, count r = if r = a then 4 else if r = b then 1 else if r = c then 1 else 0) →
      OtherShape count
  | fourWithPairs (a b c : Nat) : a ∈ paiRanks → b ∈ paiRanks → c ∈ paiRanks → a ≠ b → a ≠ c →
      b < c →
      (∀ r, count r = if r = a then 4 else if r = b then 2 else if r = c then 2 else 0) →
      OtherShape count
  | feiji : OneRun count → OtherShape count
  | bomb (a : Nat) : a ∈ paiRanks → (∀ r, count r = if r = a then 4 else 0) → OtherShape count
  | rocket : (∀ r, count r = if r = 16 then 1 else if r = 17 then 1 else 0) → OtherShape count

theorem OtherShape.accepted {count : Nat → Nat} (h : OtherShape count) :
    ∃ q, paiTypeOfCounts 0 (sortPaiByAmount count) = some q := by
  cases h with
  | group a k ha hk hk3 hcount => exact ⟨_, paiType_group ha hk hk3 hcount⟩
  | threeWithOne a b ha hb hab hcount => exact ⟨_, paiType_threeWithOne ha hb hab hcount⟩
  | threeWithTwo a b ha hb hab hcount => exact ⟨_, paiType_threeWithTwo ha hb hab hcount⟩
  | shunzi s n hs hn hlen hcount => exact ⟨_, paiType_shunzi hs hn hlen hcount⟩
  | liandui s n hs hn hlen hcount => exact ⟨_, paiType_liandui hs hn hlen hcount⟩
  | fourWithPair a b ha hb hab hcount => exact ⟨_, paiType_fourWithPair ha hb hab hcount⟩
  | fourWithTwo a b c ha hb hc hab hac hbc hboss hcount =>
      exact ⟨_, paiType_fourWithTwo ha hb hc hab hac hbc (.inl hboss) hcount⟩
  | fourWithPairs a b c ha hb hc hab hac hbc hcount =>
      exact ⟨_, paiType_fourWithPairs ha hb hc hab hac hbc hcount⟩
  | feiji hrun =>
      obtain ⟨s, n, hs, h15, hn, hcount⟩ := hrun
      exact ⟨_, paiType_feiji hs h15 hn hcount⟩
  | bomb a ha hcount => exact ⟨_, paiType_bomb ha hcount⟩
  | rocket hcount => exact ⟨_, paiType_rocket hcount⟩

section Runs

variable {count : Nat → Nat} {s n : Nat}

theorem TripleRun.extend_right (h : TripleRun count s n) :
    ∃ n', n ≤ n' ∧ TripleRun count s n' ∧ (s + n' < 15 → count (s + n') ≠ 3) := by
  have hhigh := h.high
  induction hk : 15 - (s + n) generalizing n with
  | zero => exact ⟨n, le_rfl, h, fun hlt => by omega⟩
  | succ k ih =>
      by_cases h3 : count (s + n) = 3
      · have hnext : TripleRun count s (n + 1) := by
          refine ⟨h.low, by omega, by have := h.two; omega, fun r h₁ h₂ => ?_⟩
          by_cases hr : r < s + n
          · exact h.run r h₁ hr
          · rwa [show r = s + n by omega]
        obtain ⟨n', hle, hrun, hend⟩ := ih hnext hnext.high (by omega)
        exact ⟨n', by omega, hrun, hend⟩
      · exact ⟨n, le_rfl, h, fun _ => h3⟩

theorem TripleRun.extend_left (h : TripleRun count s n) :
    ∃ s' n', s' ≤ s ∧ s' + n' = s + n ∧ TripleRun count s' n' ∧
      ∀ r, 3 ≤ r → r + 1 = s' → count r ≠ 3 := by
  have hlow := h.low
  induction hk : s - 3 generalizing s n with
  | zero => exact ⟨s, n, le_rfl, rfl, h, fun r h₁ h₂ => by omega⟩
  | succ k ih =>
      by_cases h3 : count (s - 1) = 3
      · have hnext : TripleRun count (s - 1) (n + 1) := by
          have := h.high
          have := h.two
          refine ⟨by omega, by omega, by omega, fun r h₁ h₂ => ?_⟩
          by_cases hr : s ≤ r
          · exact h.run r hr (by omega)
          · rwa [show r = s - 1 by omega]
        obtain ⟨s', n', hle, hend, hrun, hleft⟩ := ih hnext hnext.low (by omega)
        exact ⟨s', n', by omega, by omega, hrun, hleft⟩
      · refine ⟨s, n, le_rfl, rfl, h, fun r _ h₂ => ?_⟩
        rwa [show r = s - 1 by omega]

theorem TripleRun.maximal (h : TripleRun count s n) :
    ∃ s' n', s' ≤ s ∧ s + n ≤ s' + n' ∧ TripleRun count s' n' ∧ Unextended count s' n' := by
  obtain ⟨n₁, hle, hright, hend⟩ := h.extend_right
  obtain ⟨s', n', hle', hend', hrun, hleft⟩ := hright.extend_left
  exact ⟨s', n', hle', by omega, hrun, hleft, fun hlt => hend' ▸ hend (hend' ▸ hlt)⟩

theorem TripleRun.cardSum_eq (h : TripleRun count s n) :
    cardSum count = ((List.range' 3 (s - 3)).map count).sum + (3 * n +
      ((List.range' (s + n) (18 - (s + n))).map count).sum) := by
  have hmid : (List.range' s n).map count = (List.range' s n).map fun _ => 3 := by
    refine List.map_congr_left fun r hr => ?_
    rw [List.mem_range'_1] at hr
    exact h.run r hr.1 hr.2
  have hhigh := h.high
  rw [cardSum, paiRanks_split h.low (show s + n ≤ 18 by omega), List.map_append, List.map_append,
    List.sum_append, List.sum_append, hmid]
  simp [Nat.mul_comm]

theorem TripleRun.oneRun (h : TripleRun count s n) (hranks : ∀ r, r ∉ paiRanks → count r = 0)
    (hsum : cardSum count = 3 * n) : OneRun count := by
  refine ⟨s, n, h.low, h.high, h.two, fun r => ?_⟩
  have hhigh := h.high
  have hlow := h.low
  rw [h.cardSum_eq] at hsum
  have hleft : ((List.range' 3 (s - 3)).map count).sum = 0 := by omega
  have hright : ((List.range' (s + n) (18 - (s + n))).map count).sum = 0 := by omega
  rw [List.sum_eq_zero_iff] at hleft hright
  split
  · next hr => exact h.run r hr.1 hr.2
  · next hr =>
    by_cases hmem : r ∈ paiRanks
    · have hr' := mem_paiRanks.mp hmem
      by_cases hlt : r < s
      · exact hleft _ (List.mem_map_of_mem (List.mem_range'_1.mpr (by omega)))
      · exact hright _ (List.mem_map_of_mem (List.mem_range'_1.mpr (by omega)))
    · exact hranks r hmem

end Runs

section Wings

variable {count : Nat → Nat} {s n : Nat}

theorem SingleWings.accepted_iff (h : SingleWings count s n)
    (hranks : ∀ r, r ∉ paiRanks → count r = 0) :
    (∃ q, paiTypeOfCounts 0 (sortPaiByAmount count) = some q ∧ q.type ∈ [10, 11, 12]) ↔
      Unextended count s n ∨ OneRun count := by
  constructor
  · rintro ⟨q, hq, -⟩
    obtain ⟨s', n', hs', hend, hrun, hmax⟩ := h.toTripleRun.maximal
    by_cases hsame : n' = n
    · obtain rfl : s' = s := by omega
      exact .inl (hsame ▸ hmax)
    · have hlonger : n < n' := by omega
      have hsum := h.sum
      obtain ⟨others, hothers, -, -, heq⟩ := @paiType_triples _ _ _ 0 hrun.low hrun.high
        hrun.two hrun.run (fun r _ => h.noFour r) hmax.1 hmax.2 (by omega)
      rw [heq] at hq
      -- `n'` triples leave fewer than `n` cards, too few for wings of the longer run
      split at hq
      · next hnil =>
        rw [hnil, List.map_nil, List.sum_nil] at hothers
        exact .inr (hrun.oneRun hranks (by omega))
      · rw [if_neg (by omega), if_neg (by omega)] at hq
        cases hq
  · rintro (hmax | hone)
    · obtain ⟨wings, hq⟩ := @paiType_feijid1 _ _ _ 0 h.low h.high h.two h.run
        (fun r _ => h.noFour r) hmax.1 hmax.2 h.boss h.sum
      exact ⟨_, hq, by simp⟩
    · obtain ⟨s', n', hs', h15, hn, hcount⟩ := hone
      exact ⟨_, paiType_feiji hs' h15 hn hcount, by simp⟩

theorem paiTypeOfCounts_four {a b c : PaiCount} {l : List PaiCount} (ha : a.amount = 4)
    (hb : 3 ≤ b.amount) (lz : Nat) : paiTypeOfCounts lz (a :: b :: c :: l) = none := by
  have h₁ : b.amount ≠ 1 := by omega
  have h₂ : b.amount ≠ 2 := by omega
  simp only [paiTypeOfCounts, if_pos ha]
  cases l with
  | nil => simp [h₁, h₂]
  | cons d l => rfl

theorem TripleRun.two_triples (h : TripleRun count s n) :
    ∃ b c l, block count 3 = b :: c :: l ∧ b.amount = 3 := by
  have hlow := h.low
  have hhigh := h.high
  have htwo := h.two
  have hmem : ∀ r, s ≤ r → r < s + n → ⟨r, 3⟩ ∈ block count 3 := fun r h₁ h₂ =>
    mem_block.mpr ⟨mem_paiRanks.mpr ⟨by simp only; omega, by simp only; omega⟩, h.run r h₁ h₂, rfl⟩
  have hfirst := hmem s le_rfl (by omega)
  have hsecond := hmem (s + 1) (by omega) (by omega)
  have hamount : ∀ p ∈ block count 3, p.amount = 3 := fun p hp => (mem_block.mp hp).2.2
  match block count 3, hfirst, hsecond, hamount with
  | [_], hfirst, hsecond, _ =>
      rw [List.mem_singleton] at hfirst hsecond
      have := congrArg PaiCount.type (hfirst.trans hsecond.symm)
      simp at this
  | b :: c :: l, _, _, hamount => exact ⟨b, c, l, rfl, hamount b (by simp)⟩

theorem PairWings.accepted_iff (h : PairWings count s n) :
    (∃ q, paiTypeOfCounts 0 (sortPaiByAmount count) = some q ∧ q.type ∈ [10, 11, 12]) ↔
      ∀ r ∈ paiRanks, count r ≠ 4 := by
  constructor
  · rintro ⟨q, hq, -⟩ r hr h4
    have hle : ∀ r ∈ paiRanks, count r ≤ 4 := by
      intro r _
      by_cases hin : s ≤ r ∧ r < s + n
      · rw [h.run r hin.1 hin.2]
        decide
      · have := h.wing r hin
        omega
    have hmem : ⟨r, 4⟩ ∈ block count 4 := mem_block.mpr ⟨hr, h4, rfl⟩
    have hamount : ∀ p ∈ block count 4, p.amount = 4 := fun p hp => (mem_block.mp hp).2.2
    obtain ⟨b, c, l, htriples, hb⟩ := h.toTripleRun.two_triples
    rw [sortPaiByAmount_blocks hle, htriples] at hq
    match block count 4, hmem, hamount, hq with
    | [a], _, hamount, hq =>
        simp only [List.cons_append, List.nil_append] at hq
        rw [paiTypeOfCounts_four (hamount a (by simp)) (by omega)] at hq
        cases hq
    | a :: a' :: fours, _, hamount, hq =>
        have ha' := hamount a' (by simp)
        cases fours with
        | nil =>
            simp only [List.cons_append, List.nil_append] at hq
            rw [paiTypeOfCounts_four (hamount a (by simp)) (by omega)] at hq
            cases hq
        | cons a'' fours =>
            simp only [List.cons_append] at hq
            rw [paiTypeOfCounts_four (hamount a (by simp)) (by omega)] at hq
            cases hq
  · intro hfour
    -- outside the ranks of the cards a count does not matter
    set ranked : Nat → Nat := fun r => if r ∈ paiRanks then count r else 0 with hranked
    have hlow := h.low
    have hhigh := h.high
    have hrun : ∀ r, s ≤ r → r < s + n → ranked r = 3 := by
      intro r h₁ h₂
      rw [hranked]
      exact (if_pos (mem_paiRanks.mpr (by omega))).trans (h.run r h₁ h₂)
    have hwing : ∀ r, ¬ (s ≤ r ∧ r < s + n) → ranked r = 0 ∨ ranked r = 2 := by
      intro r hout
      by_cases hr : r ∈ paiRanks
      · have hcount : ranked r = count r := if_pos hr
        have := h.wing r hout
        have := hfour r hr
        omega
      · exact .inl (if_neg hr)
    have hsum : cardSum ranked = 3 * n + 2 * n := by
      have hmap : paiRanks.map ranked = paiRanks.map count :=
        List.map_congr_left fun r hr => if_pos hr
      rw [← h.sum, cardSum, hmap, cardSum]
    obtain ⟨wings, hq⟩ := @paiType_feijid2 _ _ _ 0 hlow hhigh h.two hrun hwing hsum
    have hsort : sortPaiByAmount count = sortPaiByAmount ranked :=
      sortPaiByAmount_congr fun r hr => (if_pos hr).symm
    exact ⟨_, hsort ▸ hq, by simp⟩

end Wings

/-! ## The classification of a list of cards -/

theorem paiType_fourWithJokers {count : Nat → Nat} {a : Nat} (ha : a ∈ paiRanks) (h16 : a < 16)
    (hcount : ∀ r, count r = if r = a then 4 else if r = 16 then 1 else if r = 17 then 1 else 0) :
    paiTypeOfCounts 0 (sortPaiByAmount count) = none := by
  rw [sort_three ha (by decide) (by decide) (by omega) (by omega) (by decide) (by decide)
    (by decide) hcount]
  simp [paiTypeOfCounts]

/-- A list of cards in one of the shapes of the plays is accepted, but for airplanes: single wings
must not continue the run unless everything is one run, and pairs must not make a four of a
kind. -/
theorem getPaiType_complete {ids : List Nat} (hne : ids ≠ [])
    (hids : ∀ id ∈ ids, 1 ≤ id ∧ id ≤ 54) :
    (∀ s n, SingleWings (rankCount ids) s n →
      (AcceptedAs ids [10, 11, 12] ↔
        Unextended (rankCount ids) s n ∨ OneRun (rankCount ids))) ∧
    (∀ s n, PairWings (rankCount ids) s n →
      (AcceptedAs ids [10, 11, 12] ↔ ∀ r ∈ paiRanks, rankCount ids r ≠ 4)) ∧
    (OtherShape (rankCount ids) → ∃ q, getPaiType ids 0 = some (some q)) ∧
    ∀ a ∈ paiRanks, a < 16 → (∀ r, rankCount ids r =
        if r = a then 4 else if r = 16 then 1 else if r = 17 then 1 else 0) →
      getPaiType ids 0 = some none := by
  have hget := getPaiType_rankCount hne hids 0
  have haccept : AcceptedAs ids [10, 11, 12] ↔ ∃ q, paiTypeOfCounts 0
      (sortPaiByAmount (rankCount ids)) = some q ∧ q.type ∈ [10, 11, 12] := by
    simp only [AcceptedAs, hget, Option.some.injEq]
  refine ⟨fun s n hwings => ?_, fun s n hwings => ?_, fun hshape => ?_, fun a ha h16 hcount => ?_⟩
  · rw [haccept]
    exact hwings.accepted_iff fun r hr => rankCount_eq_zero hids hr
  · rw [haccept]
    exact hwings.accepted_iff
  · obtain ⟨q, hq⟩ := hshape.accepted
    exact ⟨q, by rw [hget, hq]⟩
  · rw [hget, paiType_fourWithJokers ha h16 hcount]

def sevenWings : List Nat := [1, 2, 3, 5, 6, 7, 9, 10, 11, 13, 14, 15, 17, 18, 19, 21]

def nineWings : List Nat := [1, 2, 3, 5, 6, 7, 9, 10, 11, 13, 14, 15, 25, 26, 27, 21]

theorem singleWings_of_list {ids : List Nat} (hids : ∀ id ∈ ids, 1 ≤ id ∧ id ≤ 54)
    (hrun : ∀ r ∈ [3, 4, 5, 6], rankCount ids r = 3)
    (hfour : ∀ r ∈ paiRanks, rankCount ids r ≤ 3)
    (hboss : rankCount ids 16 + rankCount ids 17 ≤ 1) (hsum : cardSum (rankCount ids) = 16) :
    SingleWings (rankCount ids) 3 4 := by
  refine ⟨⟨le_rfl, by decide, by decide, fun r h₁ h₂ => ?_⟩, fun r => ?_, hboss, hsum⟩
  · interval_cases r <;> exact hrun _ (by decide)
  · by_cases hr : r ∈ paiRanks
    · exact hfour r hr
    · rw [rankCount_eq_zero hids hr]
      decide

theorem nineWings_accepted : AcceptedAs nineWings [10, 11, 12] := by
  have hids : ∀ id ∈ nineWings, 1 ≤ id ∧ id ≤ 54 := by decide
  have hwings : SingleWings (rankCount nineWings) 3 4 :=
    singleWings_of_list hids (by decide +kernel) (by decide +kernel) (by decide +kernel)
      (by decide +kernel)
  refine ((getPaiType_complete (by decide) hids).1 3 4 hwings).mpr (.inl ⟨?_, ?_⟩)
  · intro r h₁ h₂
    omega
  · intro _
    decide +kernel

/-- The sevens continue the run. -/
theorem sevenWings_refused :
    sevenWings.Nodup ∧ (∀ id ∈ sevenWings, 1 ≤ id ∧ id ≤ 54) ∧
      SingleWings (rankCount sevenWings) 3 4 ∧ getPaiType sevenWings 0 = some none := by
  have hids : ∀ id ∈ sevenWings, 1 ≤ id ∧ id ≤ 54 := by decide
  exact ⟨by decide, hids, singleWings_of_list hids (by decide +kernel) (by decide +kernel)
    (by decide +kernel) (by decide +kernel), by decide +kernel⟩

end JyQipai.Ddz
