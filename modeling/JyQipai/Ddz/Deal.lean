import JyQipai.Ddz.Shuffle
import JyQipai.Lib.Piles

/-!
# Every shuffle deals the whole deck

Each way of shuffling returns the cards of the deck in some order, whatever the
random numbers are: exchanging two positions, splitting into piles, sorting a
pile and exchanging two piles all permute the cards.  `nor_fapai` then hands
out consecutive segments of the shuffled deck.
-/

namespace JyQipai.Ddz

open JyQipai.Lib

/-! ## Exchanging cards -/

theorem random_mem (ρ : Nat → Nat) (k : Nat) {lo hi : Nat} (h : lo ≤ hi) :
    lo ≤ random ρ k lo hi ∧ random ρ k lo hi ≤ hi := by
  have := Nat.mod_lt (ρ k) (show 0 < hi + 1 - lo by omega)
  unfold random
  omega

theorem exchange_perm {pai : List Nat} {i j : Nat} (hi : 1 ≤ i ∧ i ≤ pai.length)
    (hj : 1 ≤ j ∧ j ≤ pai.length) : (exchange pai i j).Perm pai := by
  have hi' : i - 1 < pai.length := by omega
  have hj' : j - 1 < pai.length := by omega
  have hswap := List.set_set_perm hi' hj'
  simpa [exchange, hi', hj'] using hswap

theorem shufflePass_perm (ρ : Nat → Nat) {is : List Nat} {k : Nat}
    {pai : List Nat} (h : ∀ i ∈ is, 1 ≤ i ∧ i ≤ pai.length) :
    (shufflePass ρ is k pai).1.Perm pai := by
  induction is generalizing k pai with
  | nil => exact .refl _
  | cons i is ih =>
      have hi := h i List.mem_cons_self
      have hj := random_mem ρ k hi.2
      have hperm := exchange_perm hi ⟨hi.1.trans hj.1, hj.2⟩
      refine (ih fun i' hi' => ?_).trans hperm
      rw [hperm.length_eq]
      exact h i' (List.mem_cons_of_mem _ hi')

theorem length_deck (g : GameType) :
    (deck g).length = if g = .er then 46 else 54 := by
  cases g <;> rfl

theorem xipaiNorXipai_perm (g : GameType) (ρ : Nat → Nat) {count : Option Nat}
    (hcount : count.all (· ≤ (deck g).length)) (k : Nat) :
    (xipaiNorXipai g ρ count k).1.Perm (deck g) := by
  have hlen : 3 ≤ (deck g).length := by
    rw [length_deck]
    split <;> omega
  have hfirst : (shufflePass ρ (List.range' ((deck g).length - 2) 3) k
      (deck g)).1.Perm (deck g) := by
    refine shufflePass_perm ρ fun i hi => ?_
    rw [List.mem_range'_1] at hi
    omega
  have hle : count.getD (deck g).length ≤ (deck g).length := by
    cases count with
    | none => exact le_rfl
    | some c => simpa using hcount
  refine (shufflePass_perm ρ fun i hi => ?_).trans hfirst
  rw [List.mem_range'_1] at hi
  rw [hfirst.length_eq]
  omega

section Heap

variable {fen : Nat → List Nat} {n i j : Nat}

theorem coe_heap (fen : Nat → List Nat) (n : Nat) :
    (heap fen n : Multiset Nat) =
      ((List.range' 1 n).map fun i => (fen i : Multiset Nat)).sum := by
  rw [heap]
  induction List.range' 1 n with
  | nil => rfl
  | cons i l ih => rw [List.flatMap_cons, List.map_cons, List.sum_cons, ← ih,
      Multiset.coe_add]

theorem coe_heap_update (fen : Nat → List Nat) (hi : 1 ≤ i ∧ i ≤ n)
    (pile : List Nat) :
    (heap (Function.update fen i pile) n : Multiset Nat) + fen i =
      heap fen n + pile := by
  have hmem : i ∈ List.range' 1 n := by
    rw [List.mem_range'_1]
    omega
  have hsum := sum_map_update List.nodup_range' hmem
    (fun i => (fen i : Multiset Nat)) pile
  rw [coe_heap, coe_heap, ← hsum]
  congr 3
  funext k
  rw [Function.update_apply, Function.update_apply]
  split <;> rfl

theorem fenpai_perm {count maxZu : Nat} {pai : List Nat} {k cur : Nat}
    (hcur : 1 ≤ cur ∧ cur ≤ maxZu) :
    (heap (fenpai count maxZu pai k cur fen) maxZu).Perm
      (heap fen maxZu ++ pai) := by
  induction pai generalizing k cur fen with
  | nil => simp [fenpai]
  | cons p pai ih =>
      have hnext : 1 ≤ (if k % count = 0 then min (cur + 1) maxZu else cur) ∧
          (if k % count = 0 then min (cur + 1) maxZu else cur) ≤ maxZu := by
        split <;> omega
      have hput : (heap (Function.update fen cur (fen cur ++ [p])) maxZu).Perm
          (heap fen maxZu ++ [p]) := by
        rw [← Multiset.coe_eq_coe]
        have := coe_heap_update fen hcur (fen cur ++ [p])
        refine add_right_cancel (b := (fen cur : Multiset Nat)) ?_
        rw [this, ← Multiset.coe_add, ← Multiset.coe_add]
        abel
      refine (ih hnext).trans ?_
      simpa using hput.append_right pai

theorem heap_nil (n : Nat) : heap (fun _ => []) n = [] := by
  simp [heap]

theorem heap_sort (fen : Nat → List Nat) (n : Nat) :
    (heap (fun i => (fen i).insertionSort (· ≥ ·)) n).Perm (heap fen n) := by
  rw [← Multiset.coe_eq_coe, coe_heap, coe_heap]
  congr 2
  funext i
  exact Multiset.coe_eq_coe.mpr (List.perm_insertionSort _ _)

theorem heap_exchange (hi : 1 ≤ i ∧ i ≤ n) (hj : 1 ≤ j ∧ j ≤ n) :
    (heap (exchangePiles fen i j) n).Perm (heap fen n) := by
  unfold exchangePiles
  split
  · next hne =>
    have h1 := coe_heap_update fen hj (fen i)
    have h2 := coe_heap_update (Function.update fen j (fen i)) hi (fen j)
    rw [Function.update_of_ne hne.symm] at h2
    rw [← Multiset.coe_eq_coe]
    refine add_right_cancel (b := (fen i : Multiset Nat)) ?_
    rw [h2, h1]
  · exact .refl _

theorem shufflePiles_perm (ρ : Nat → Nat) {is : List Nat} {k : Nat}
    (h : ∀ i ∈ is, 1 ≤ i ∧ i ≤ n) :
    (heap (shufflePiles ρ n is k fen).1 n).Perm (heap fen n) := by
  induction is generalizing k fen with
  | nil => exact .refl _
  | cons i is ih =>
      have hi := h i List.mem_cons_self
      have hj := random_mem ρ k (hi.1.trans hi.2)
      exact (ih fun i' hi' => h i' (List.mem_cons_of_mem _ hi')).trans
        (heap_exchange hi hj)

end Heap

/-! ## Shuffling in piles -/

structure BuxipaiArgs.Ok (a : BuxipaiArgs) : Prop where
  xpCount : a.xpCount.all (· ≤ (deck a.gameType).length)
  duiCount : 6 ≤ a.duiCount

theorem buxipaiOnce_perm {a : BuxipaiArgs} (h : a.Ok) (ρ : Nat → Nat) (k : Nat) :
    (buxipaiOnce a ρ k).1.Perm (deck a.gameType) := by
  have hdui := h.duiCount
  have hfen : ∀ (count n : Nat) (pai : List Nat), 1 ≤ n →
      (heap (fenpai count n pai 1 1 fun _ => []) n).Perm pai := by
    intro count n pai hn
    refine (fenpai_perm ⟨le_rfl, hn⟩).trans ?_
    rw [heap_nil, List.nil_append]
  unfold buxipaiOnce
  dsimp only
  refine (shufflePiles_perm ρ fun i hi => ?_).trans ?_
  · rw [List.mem_range'_1] at hi
    omega
  · refine (hfen _ _ _ (by omega)).trans ((heap_sort _ _).trans ?_)
    exact (hfen _ _ _ (by omega)).trans (xipaiNorXipai_perm _ ρ h.xpCount k)

theorem best_try_perm {D pai : List Nat} {boom : Nat}
    {best : Option (Nat × List Nat)} (hpai : pai.Perm D)
    (hbest : ∀ b ∈ best, b.2.Perm D) :
    (if best.all fun b => b.1 < boom then (boom, pai)
      else best.getD (boom, pai)).2.Perm D := by
  split
  · exact hpai
  · cases best with
    | none => exact hpai
    | some b => exact hbest b rfl

theorem buxipai_perm {a : BuxipaiArgs} (h : a.Ok) (ρ : Nat → Nat)
    {depth k : Nat} {limit : Option Nat} {best : Option (Nat × List Nat)}
    (hbest : ∀ b ∈ best, b.2.Perm (deck a.gameType)) :
    (buxipai a ρ depth k limit best).Perm (deck a.gameType) := by
  induction depth generalizing k limit best with
  | zero =>
      unfold buxipai
      dsimp only
      split
      · exact buxipaiOnce_perm h ρ k
      · exact best_try_perm (buxipaiOnce_perm h ρ k) hbest
  | succ depth ih =>
      unfold buxipai
      dsimp only
      split
      · exact buxipaiOnce_perm h ρ k
      · refine ih fun b hb => ?_
        obtain rfl := Option.some.inj hb
        exact best_try_perm (buxipaiOnce_perm h ρ k) hbest

theorem xipai_perm (cfg : Config) (ρ : Nat → Nat) :
    (xipai cfg ρ).Perm (deck cfg.gameType) := by
  unfold xipai
  split
  · next hg =>
    rw [hg]
    exact buxipai_perm ⟨by decide, by decide⟩ ρ (by simp)
  · next hg =>
    rw [hg]
    exact buxipai_perm ⟨by decide, by decide⟩ ρ (by simp)
  · next hg =>
    rw [hg]
    split
    · exact buxipai_perm ⟨by decide, by decide⟩ ρ (by simp)
    · exact xipaiNorXipai_perm .nor ρ rfl 0
  · next hg =>
    rw [hg]
    exact xipaiNorXipai_perm .lz ρ rfl 0

/-! ## Dealing -/

namespace Deal

variable {pai : List Nat} {p : Nat} {d : Deal}

theorem iterate_give (pai : List Nat) (p k : Nat) {d : Deal} (hi : 1 ≤ d.i)
    (hk : d.i + k ≤ pai.length + 1) :
    ((give pai p)^[k] d).pai =
        Function.update d.pai p
          (d.pai p ∪ ((pai.drop (d.i - 1)).take k).toFinset) ∧
      ((give pai p)^[k] d).remainPai =
        Function.update d.remainPai p (d.remainPai p + k) ∧
      ((give pai p)^[k] d).i = d.i + k := by
  induction k generalizing d with
  | zero => simp
  | succ k ih =>
      have hlt : d.i - 1 < pai.length := by omega
      obtain ⟨hp, hr, hi'⟩ := ih (d := d.give pai p) (by simp [give])
        (by simp [give]; omega)
      rw [Function.iterate_succ_apply, hp, hr, hi']
      refine ⟨?_, ?_, by simp [give]; omega⟩
      · have hdrop := List.drop_eq_getElem_cons hlt
        rw [hdrop, List.take_succ_cons, show d.i - 1 + 1 = d.i by omega]
        simp [give, hlt]
      · have hadd : d.remainPai p + 1 + (k : Int) = d.remainPai p + (k + 1) := by
          omega
        simp [give, hadd]

theorem giveUpTo_eq {num k : Nat} (hk : 1 ≤ k ∧ k ≤ num)
    (hgo : ∀ j, 1 ≤ j → j < k →
      d.remainPai p + j < 17 ∧ d.i + j ≤ pai.length - 3)
    (hstop : k = num ∨ 17 ≤ d.remainPai p + k ∨ pai.length - 3 < d.i + k) :
    giveUpTo pai p num d = (give pai p)^[k] d := by
  induction num generalizing k d with
  | zero => omega
  | succ num ih =>
      have hremain : (d.give pai p).remainPai p = d.remainPai p + 1 := by
        simp [give]
      have hi : (d.give pai p).i = d.i + 1 := rfl
      obtain ⟨k, rfl⟩ : ∃ k', k = k' + 1 := ⟨k - 1, by omega⟩
      rw [giveUpTo, Function.iterate_succ_apply, hremain, hi]
      cases k with
      | zero =>
          split
          · rfl
          · obtain rfl : num = 0 := by push_cast at hstop; omega
            rfl
      | succ k =>
          have h1 := hgo 1 le_rfl (by omega)
          rw [if_neg (by push_cast at h1; omega)]
          refine ih (by omega) (fun j hj hjk => ?_) ?_
          · have := hgo (j + 1) (by omega) (by omega)
            rw [hremain, hi]
            push_cast at this ⊢
            omega
          · rw [hremain, hi]
            push_cast at hstop ⊢
            omega

theorem giveUpTo_spec (pai : List Nat) {k : Nat} (hi : 1 ≤ d.i) (hr : d.remainPai p = 0)
    (hk : 1 ≤ k ∧ k ≤ 17) (hlen : d.i + k ≤ pai.length - 2)
    (hstop : k = 17 ∨ d.i + k = pai.length - 2) :
    (giveUpTo pai p 17 d).pai = Function.update d.pai p
        (d.pai p ∪ ((pai.drop (d.i - 1)).take k).toFinset) ∧
      (giveUpTo pai p 17 d).remainPai = Function.update d.remainPai p k ∧
      (giveUpTo pai p 17 d).i = d.i + k := by
  rw [giveUpTo_eq hk (fun j hj hjk => by omega) (by omega)]
  obtain ⟨h1, h2, h3⟩ := iterate_give pai p k hi (by omega)
  exact ⟨h1, by rw [h2, hr, zero_add], h3⟩

end Deal

theorem norFapai_spec {pai : List Nat} (hlen : 37 < pai.length)
    (hlen' : pai.length ≤ 54) :
    (norFapai pai {} 17).pai 1 = (pai.take 17).toFinset ∧
      (norFapai pai {} 17).pai 2 = ((pai.drop 17).take 17).toFinset ∧
      (norFapai pai {} 17).pai 3 =
        ((pai.drop 34).take (pai.length - 37)).toFinset ∧
      (norFapai pai {} 17).remainPai 1 = 17 ∧
      (norFapai pai {} 17).remainPai 2 = 17 ∧
      (norFapai pai {} 17).remainPai 3 = (pai.length - 37 : Nat) ∧
      (norFapai pai {} 17).dzPai = pai.drop (pai.length - 3) := by
  set d₀ : Deal := ⟨fun _ => ∅, fun _ => 0, 1⟩ with hd₀
  obtain ⟨p₁, r₁, i₁⟩ := Deal.giveUpTo_spec pai (p := 1) (d := d₀) (k := 17)
    le_rfl rfl (by omega) (by simp only [hd₀]; omega) (.inl rfl)
  set d₁ := Deal.giveUpTo pai 1 17 d₀
  replace i₁ : d₁.i = 18 := i₁
  obtain ⟨p₂, r₂, i₂⟩ := Deal.giveUpTo_spec pai (p := 2) (d := d₁) (k := 17)
    (by omega) (by simp [r₁, hd₀]) (by omega) (by omega) (.inl rfl)
  set d₂ := Deal.giveUpTo pai 2 17 d₁
  replace i₂ : d₂.i = 35 := by rw [i₂, i₁]
  obtain ⟨p₃, r₃, i₃⟩ := Deal.giveUpTo_spec pai (p := 3) (d := d₂)
    (k := pai.length - 37)
    (by omega) (by simp [r₂, r₁, hd₀]) (by omega) (by omega) (.inr (by omega))
  set d₃ := Deal.giveUpTo pai 3 17 d₂
  have hround : Deal.round pai 17 d₀ = d₃ := by
    have e₁ : (if d₀.remainPai 1 < 17 then d₀.giveUpTo pai 1 17 else d₀) = d₁ :=
      if_pos (by simp [hd₀])
    have e₂ : (if d₁.remainPai 2 < 17 then d₁.giveUpTo pai 2 17 else d₁) = d₂ :=
      if_pos (by simp [r₁, hd₀])
    have e₃ : (if d₂.remainPai 3 < 17 then d₂.giveUpTo pai 3 17 else d₂) = d₃ :=
      if_pos (by simp [r₂, r₁, hd₀])
    simp only [Deal.round, List.foldl_cons, List.foldl_nil, e₁, e₂, e₃]
  have hrounds : Deal.rounds pai 17 pai.length d₀ = d₃ := by
    obtain ⟨n, hn⟩ : ∃ n, pai.length = n + 2 := ⟨pai.length - 2, by omega⟩
    rw [hn, Deal.rounds, if_pos (by simp only [hd₀]; omega), hround, Deal.rounds,
      if_neg (by omega)]
  have hdeal : norFapai pai {} 17 =
      { pai := d₃.pai, remainPai := d₃.remainPai
        dzPai := pai.drop (pai.length - 3) } := by
    simp only [norFapai]
    rw [hrounds]
    rfl
  rw [hdeal]
  simp [p₃, p₂, p₁, r₃, r₂, r₁, hd₀, i₁, i₂]

end JyQipai.Ddz
