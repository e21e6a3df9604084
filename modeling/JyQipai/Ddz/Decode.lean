import JyQipai.Ddz.HintPlay

/-!
# Classification loses nothing

`get_useInfo_by_cpData` computes from the type and the key ranks of a play how many cards of each
rank it holds.  It gives back the counts that `get_pai_type` started from.
-/

namespace JyQipai.Ddz

/-! ## The decoder -/

def norRun (a b k : Nat) : Nat → Nat := fun r => if a ≤ r ∧ r ≤ b then k else 0

/-- The ranks `pai[3], …` of the loop over `n` wings; `none` if one of them is `nil`. -/
def wingsOf (pai : List Nat) (n : Nat) : Option (List Nat) :=
  if ((pai.drop 2).take n).length = n then some ((pai.drop 2).take n) else none

def addWings (k : Nat) (wings : List Nat) (nor : Nat → Nat) : Nat → Nat :=
  wings.foldl (fun nor p => Function.update nor p (nor p + k)) nor

/-- The table `useInfo.nor` that `get_useInfo_by_cpData` builds for a type other than 0; `none` if
a rank it needs is `nil`. -/
def norByCpData (type : Nat) (pai : List Nat) : Option (Nat → Nat) :=
  let one (n : Nat) : Option (Nat → Nat) :=
    pai[0]?.map fun a => Function.update (fun _ => 0) a n
  let two (n k : Nat) : Option (Nat → Nat) :=
    (one n).bind fun nor => pai[1]?.map fun b => Function.update nor b k
  let run (k : Nat) : Option (Nat → Nat) :=
    pai[0]?.bind fun a => pai[1]?.map fun b => norRun a b k
  let feiji (k : Nat) : Option (Nat → Nat) :=
    pai[0]?.bind fun a => pai[1]?.bind fun b =>
      (wingsOf pai (b + 1 - a)).map fun wings => addWings k wings (norRun a b 3)
  if type ≤ 3 then one type
  else match type with
    | 4 => two 3 1
    | 5 => two 3 2
    | 6 => run 1
    | 7 => run 2
    | 8 => (two 4 1).bind fun nor => pai[2]?.map fun c => addWings 1 [c] nor
    | 9 => (two 4 2).bind fun nor => pai[2]?.map fun c => addWings 2 [c] nor
    | 10 => feiji 1
    | 11 => feiji 2
    | 12 => run 3
    | 13 => one 4
    | 14 => some (Function.update (Function.update (fun _ => 0) 16 1) 17 1)
    | _ => some fun _ => 0

def getUseInfoByCpData (type : Nat) (pai : List Nat) : Option (Option UseInfo) :=
  if type = 0 then some none
  else (norByCpData type pai).map fun nor => some ⟨nor, fun _ => 0⟩

def getCpListByCpData (paiIdMap : Finset Nat) (type : Nat) (pai : List Nat) :
    Option (Option CpList) :=
  (getUseInfoByCpData type pai).map fun use => use.map (getCpListByUseInfo paiIdMap)

/-! ## The amounts of a list of counts -/

def amountOf : List PaiCount → Nat → Nat
  | [], _ => 0
  | p :: l, r => (if p.type = r then p.amount else 0) + amountOf l r

theorem amountOf_append (l₁ l₂ : List PaiCount) (r : Nat) :
    amountOf (l₁ ++ l₂) r = amountOf l₁ r + amountOf l₂ r := by
  induction l₁ with
  | nil => simp [amountOf]
  | cons p l₁ ih => simp [amountOf, ih, add_assoc]

theorem amountOf_perm {l₁ l₂ : List PaiCount} (h : l₁.Perm l₂) (r : Nat) :
    amountOf l₁ r = amountOf l₂ r := by
  induction h with
  | nil => rfl
  | cons p _ ih => simp [amountOf, ih]
  | swap p q l =>
      simp only [amountOf]
      omega
  | trans _ _ ih₁ ih₂ => exact ih₁.trans ih₂

theorem amountOf_runCounts (s n k r : Nat) :
    amountOf (runCounts s n k) r = if s ≤ r ∧ r < s + n then k else 0 := by
  induction n generalizing s with
  | zero =>
      rw [if_neg (by omega)]
      rfl
  | succ n ih =>
      rw [runCounts_succ, amountOf, ih]
      simp only
      split <;> split <;> split <;> omega

theorem amountOf_counts {l : List Nat} (hl : l.Nodup) (count : Nat → Nat) (r : Nat) :
    amountOf ((l.filter fun t => 0 < count t).map fun t => ⟨t, count t⟩) r =
      if r ∈ l then count r else 0 := by
  induction l with
  | nil => rfl
  | cons t l ih =>
      obtain ⟨hnot, hl'⟩ := List.nodup_cons.mp hl
      have hrest := ih hl'
      by_cases hpos : 0 < count t
      · rw [List.filter_cons_of_pos (by simpa using hpos), List.map_cons, amountOf, hrest]
        by_cases hr : t = r
        · subst hr
          simp [hnot]
        · simp [hr, Ne.symm hr]
      · rw [List.filter_cons_of_neg (by simpa using hpos), hrest]
        by_cases hr : r = t
        · subst hr
          simp [hnot]
          omega
        · simp [hr]

theorem amountOf_sort (count : Nat → Nat) (r : Nat) :
    amountOf (sortPaiByAmount count) r = if r ∈ paiRanks then count r else 0 := by
  have hperm : (sortPaiByAmount count).Perm (paiCounts count) := List.perm_insertionSort _ _
  rw [amountOf_perm hperm, paiCounts, amountOf_counts paiRanks_nodup]

structure Ranked (l : List PaiCount) : Prop where
  sorted : l.Pairwise PaiCount.before
  types : (l.map PaiCount.type).Nodup
  pos : ∀ p ∈ l, 0 < p.amount

theorem ranked_sort (count : Nat → Nat) : Ranked (sortPaiByAmount count) := by
  have hperm : (sortPaiByAmount count).Perm (paiCounts count) := List.perm_insertionSort _ _
  refine ⟨List.pairwise_insertionSort _ _, ?_, fun p hp => ?_⟩
  · rw [(hperm.map PaiCount.type).nodup_iff, paiCounts, List.map_map]
    exact List.Nodup.map (fun a b h => h) (paiRanks_nodup.filter _)
  · have := mem_paiCounts.mp (hperm.mem_iff.mp hp)
    omega

theorem Ranked.of_cons {p : PaiCount} {l : List PaiCount} (h : Ranked (p :: l)) : Ranked l :=
  ⟨h.sorted.of_cons, (List.nodup_cons.mp h.types).2,
    fun q hq => h.pos q (List.mem_cons_of_mem _ hq)⟩

theorem Ranked.amount_le {p : PaiCount} {l : List PaiCount} (h : Ranked (p :: l)) :
    ∀ q ∈ l, q.amount ≤ p.amount := by
  intro q hq
  have hbefore := (List.pairwise_cons.mp h.sorted).1 q hq
  simp only [PaiCount.before] at hbefore
  omega

theorem Ranked.last_ge {p : PaiCount} {l : List PaiCount} (h : Ranked (p :: l)) {k : Nat}
    (hall : ∀ q ∈ p :: l, q.amount = k) : p.type + l.length ≤ (l.getLastD p).type := by
  induction l generalizing p with
  | nil => simp
  | cons q l ih =>
      have hq := ih h.of_cons fun x hx => hall x (List.mem_cons_of_mem _ hx)
      have hbefore := (List.pairwise_cons.mp h.sorted).1 q (by simp)
      have hne : p.type ≠ q.type := by
        have := (List.nodup_cons.mp h.types).1
        intro heq
        exact this (by simp [heq])
      have hp := hall p (by simp)
      have hq' := hall q (by simp)
      simp only [PaiCount.before] at hbefore
      rw [List.getLastD_cons, List.length_cons]
      omega

theorem Ranked.eq_runCounts {p : PaiCount} {l : List PaiCount} (h : Ranked (p :: l)) {k : Nat}
    (hall : ∀ q ∈ p :: l, q.amount = k) (hlast : (l.getLastD p).type ≤ p.type + l.length) :
    p :: l = runCounts p.type (l.length + 1) k := by
  induction l generalizing p with
  | nil =>
      have hp := hall p (by simp)
      obtain ⟨type, amount⟩ := p
      obtain rfl : amount = k := hp
      rfl
  | cons q l ih =>
      have hall' : ∀ x ∈ q :: l, x.amount = k := fun x hx => hall x (List.mem_cons_of_mem _ hx)
      have hge := h.of_cons.last_ge hall'
      have hbefore := (List.pairwise_cons.mp h.sorted).1 q (by simp)
      have hne : p.type ≠ q.type := by
        have := (List.nodup_cons.mp h.types).1
        intro heq
        exact this (by simp [heq])
      have hp := hall p (by simp)
      have hq' := hall q (by simp)
      simp only [PaiCount.before] at hbefore
      rw [List.getLastD_cons, List.length_cons] at hlast
      have hnext : q.type = p.type + 1 := by omega
      have hrest := ih h.of_cons hall' (by omega)
      rw [List.length_cons, runCounts_succ p.type, ← hnext, ← hrest]
      obtain ⟨type, amount⟩ := p
      obtain rfl : amount = k := hp
      rfl

/-! ## The decoder gives back the counts -/

theorem addWings_apply (k : Nat) (wings : List Nat) (nor : Nat → Nat) (r : Nat) :
    addWings k wings nor r = nor r + k * wings.count r := by
  induction wings generalizing nor with
  | nil => simp [addWings]
  | cons p wings ih =>
      have hstep : addWings k (p :: wings) nor =
          addWings k wings (Function.update nor p (nor p + k)) := rfl
      rw [hstep, ih, List.count_cons, Function.update_apply]
      by_cases hr : r = p
      · subst hr
        simp [Nat.mul_add]
        omega
      · simp [hr, Ne.symm hr]

theorem count_wings (l : List PaiCount) (r : Nat) :
    (l.flatMap fun p => List.replicate p.amount p.type).count r = amountOf l r := by
  induction l with
  | nil => rfl
  | cons p l ih =>
      rw [List.flatMap_cons, List.count_append, ih, amountOf, List.count_replicate]
      simp

theorem count_double_wings {l : List PaiCount} (h : ∀ p ∈ l, p.amount = 2) (r : Nat) :
    2 * (l.map PaiCount.type).count r = amountOf l r := by
  induction l with
  | nil => rfl
  | cons p l ih =>
      have hrest := ih fun q hq => h q (List.mem_cons_of_mem _ hq)
      have hp := h p (by simp)
      rw [List.map_cons, List.count_cons, amountOf, hp, ← hrest]
      by_cases hr : p.type = r
      · simp [hr]
        omega
      · simp [hr]

theorem length_wings (l : List PaiCount) :
    (l.flatMap fun p => List.replicate p.amount p.type).length =
      (l.map PaiCount.amount).sum := by
  simp [List.length_flatMap]

theorem amountOf_outside {pai : List PaiCount} {h t n : Nat} (hrun : RunAt pai h t n)
    (hn : 1 ≤ n) (r : Nat) :
    amountOf pai r = amountOf (outsideRun h (h - 1 + n) pai) r +
      amountOf (runCounts t n 3) r := by
  have hlen := hrun.le_length hn
  have hmid : (pai.drop (h - 1)).take n = runCounts t n 3 := by
    apply List.ext_getElem?
    intro m
    by_cases hm : m < n
    · rw [List.getElem?_take_of_lt hm, List.getElem?_drop, hrun.2 m hm]
      simp [runCounts, hm]
    · rw [List.getElem?_take_eq_none (by omega), eq_comm, List.getElem?_eq_none_iff,
        length_runCounts]
      omega
  have hsplit : pai = pai.take (h - 1) ++ (runCounts t n 3 ++ pai.drop (h - 1 + n)) := by
    rw [← hmid, ← List.drop_drop, List.take_append_drop, List.take_append_drop]
  conv_lhs => rw [hsplit]
  simp only [outsideRun, amountOf_append]
  omega

theorem norRun_eq_amountOf {t n : Nat} (k : Nat) (hn : 1 ≤ n) :
    norRun t (t + n - 1) k = amountOf (runCounts t n k) := by
  funext r
  rw [amountOf_runCounts, norRun]
  congr 1
  simp only [eq_iff_iff]
  omega

theorem norByCpData_feiji {pai : List PaiCount} {h t n k : Nat} {wings : List Nat}
    (hrun : RunAt pai h t n) (hn : 1 ≤ n) (hlen : wings.length = n)
    (hwings : ∀ r, k * wings.count r = amountOf (outsideRun h (h - 1 + n) pai) r) :
    (wingsOf (t :: (t + n - 1) :: wings) (t + n - 1 + 1 - t)).map
        (fun wings => addWings k wings (norRun t (t + n - 1) 3)) = some (amountOf pai) := by
  have hcount : t + n - 1 + 1 - t = n := by omega
  have htake : ((t :: (t + n - 1) :: wings).drop 2).take n = wings := by
    rw [List.drop_succ_cons, List.drop_succ_cons, List.drop_zero, ← hlen, List.take_length]
  rw [hcount, wingsOf, htake, if_pos hlen, Option.map_some]
  congr 1
  funext r
  rw [addWings_apply, hwings, norRun_eq_amountOf 3 hn, amountOf_outside hrun hn]
  omega

theorem single_wing {pai : List PaiCount} {h t k : Nat} (hrun : RunAt pai h t 1)
    {first : PaiCount} {rest : List PaiCount}
    (hpai : pai = first :: rest) (h3 : first.amount = 3) (hk : k < 3)
    (hsum : ((outsideRun h (h - 1 + 1) pai).map PaiCount.amount).sum = k) :
    h = 1 ∧ outsideRun h (h - 1 + 1) pai = rest := by
  subst hpai
  obtain ⟨m, rfl⟩ : ∃ m, h = m + 1 := ⟨h - 1, by have := hrun.1; omega⟩
  cases m with
  | zero => exact ⟨rfl, rfl⟩
  | succ m =>
      simp only [outsideRun, Nat.add_sub_cancel, List.take_succ_cons, List.cons_append,
        List.map_cons, List.sum_cons, h3] at hsum
      omega

theorem Ranked.update_two {a b : PaiCount} (h : Ranked [a, b]) :
    Function.update (Function.update (fun _ => 0) a.type a.amount) b.type b.amount =
      amountOf [a, b] := by
  have hne : a.type ≠ b.type := by simpa using h.types
  funext r
  simp only [amountOf, Function.update_apply]
  by_cases hb : r = b.type
  · rw [if_pos hb, if_neg (by omega), if_pos hb.symm]
    omega
  · rw [if_neg hb, if_neg (Ne.symm hb)]
    simp [eq_comm]

theorem Ranked.update_three {a b c : PaiCount} (h : Ranked [a, b, c]) :
    addWings c.amount [c.type] (Function.update
      (Function.update (fun _ => 0) a.type a.amount) b.type b.amount) = amountOf [a, b, c] := by
  have htwo : Ranked [a, b] := by
    refine ⟨h.sorted.sublist (by simp), h.types.sublist (by simp), fun p hp => h.pos p ?_⟩
    simp only [List.mem_cons, List.not_mem_nil, or_false] at hp ⊢
    tauto
  funext r
  rw [htwo.update_two, addWings_apply]
  simp only [amountOf, List.count_singleton, beq_iff_eq]
  by_cases hr : c.type = r
  · simp [hr]
    omega
  · simp [hr]

theorem Ranked.wing_amount {first : PaiCount} {rest : List PaiCount}
    (h : Ranked (first :: rest)) {k : Nat} (hk : k = 1 ∨ k = 2)
    (hsum : (rest.map PaiCount.amount).sum = k) (hdouble : k = 2 → ∀ p ∈ rest, p.amount = 2) :
    ∃ w, rest = [w] ∧ w.amount = k := by
  match rest, h, hsum, hdouble with
  | [], _, hsum, _ =>
      simp only [List.map_nil, List.sum_nil] at hsum
      omega
  | [w], _, hsum, _ => exact ⟨w, rfl, by simpa using hsum⟩
  | w :: w' :: _, h, hsum, hdouble =>
      have hw := h.pos w (by simp)
      have hw' := h.pos w' (by simp)
      simp only [List.map_cons, List.sum_cons] at hsum
      have h2 : k = 2 := by omega
      have := hdouble h2 w (by simp)
      omega

theorem norByCpData_triple {first : PaiCount} {rest : List PaiCount} {q : PaiType}
    (hranked : Ranked (first :: rest)) (h3 : first.amount = 3)
    (hq : triplePaiType first rest = some q) :
    q.type ≠ 0 ∧ norByCpData q.type q.pai = some (amountOf (first :: rest)) := by
  set ty : Nat → Nat := fun i =>
    (((first :: rest)[i - 1]?).map PaiCount.type).getD 0 with hty
  obtain ⟨t, hrun, hpos, hlen⟩ := @scanRun_runAt first rest h3
  have hlength := hrun.le_length hlen
  have hhead1 := hrun.1
  set run := scanRun {} first.type 2 rest with hrunDef
  have htyAt : ∀ m, m < run.maxLen → ty (run.head + m) = t + m := by
    intro m hm
    simp only [hty]
    rw [show run.head + m - 1 = run.head - 1 + m by omega, hrun.2 m hm]
    rfl
  have hheadTy : ty run.head = t := htyAt 0 (by omega)
  have htailTy : ty run.tail = t + run.maxLen - 1 := by
    have := htyAt (run.maxLen - 1) (by omega)
    rw [show run.tail = run.head + (run.maxLen - 1) by omega, this]
    omega
  have htail : run.tail = run.head - 1 + run.maxLen := by omega
  rw [List.length_cons] at hlength
  simp only [triplePaiType] at hq
  rw [← hrunDef] at hq
  change (if _ then some (⟨12, [first.type, ty (first :: rest).length]⟩ : PaiType)
    else if _ then if _ then some (⟨4, [first.type, ty 2]⟩ : PaiType)
      else some ⟨10, ty run.head :: ty run.tail :: _⟩
    else if _ then if _ then some (⟨5, [first.type, ty 2]⟩ : PaiType)
      else some ⟨11, ty run.head :: ty run.tail :: _⟩
    else none) = some q at hq
  rw [hheadTy, htailTy, htail] at hq
  have htwo : ∀ k w, rest = [w] → w.amount = k → (k = 1 ∨ k = 2) →
      norByCpData (3 + k) [first.type, ty 2] = some (amountOf (first :: rest)) := by
    rintro k w rfl rfl hk
    have hty2 : ty 2 = w.type := rfl
    rw [← hranked.update_two, h3, hty2]
    rcases hk with hk | hk <;> rw [hk] <;> rfl
  split at hq
  · next hall =>
    obtain rfl := Option.some.inj hq
    refine ⟨by simp, ?_⟩
    have hhead : run.head = 1 := by
      rw [List.length_cons] at hall
      omega
    have hfirst : first.type = t := by
      rw [← hheadTy, hhead]
      rfl
    have hlast : ty (first :: rest).length = t + run.maxLen - 1 := by
      rw [← htailTy, htail, hhead, hall]
      simp
    have hnone : outsideRun run.head (run.head - 1 + run.maxLen) (first :: rest) = [] := by
      simp [outsideRun, hhead, hall]
    change some (norRun first.type (ty (first :: rest).length) 3) = _
    rw [hlast, hfirst, norRun_eq_amountOf 3 hlen]
    congr 1
    funext r
    rw [amountOf_outside hrun hlen, hnone]
    simp [amountOf]
  · split at hq
    · next hsingle =>
      split at hq
      · next hone =>
        obtain rfl := Option.some.inj hq
        rw [hone] at hsingle hrun
        obtain ⟨-, hrest⟩ := single_wing hrun rfl h3 (by decide) hsingle.1
        rw [hrest] at hsingle
        obtain ⟨w, hw, hamount⟩ := hranked.wing_amount (.inl rfl) hsingle.1 (by simp)
        exact ⟨by simp, htwo 1 w hw hamount (.inl rfl)⟩
      · obtain rfl := Option.some.inj hq
        refine ⟨by simp, norByCpData_feiji (k := 1) hrun hlen ?_ fun r => ?_⟩
        · rw [length_wings]
          exact hsingle.1
        · rw [count_wings, Nat.one_mul]
    · split at hq
      · next hpairs =>
        have hall2 : ∀ p ∈ outsideRun run.head (run.head - 1 + run.maxLen) (first :: rest),
            p.amount = 2 := by simpa using hpairs.2
        split at hq
        · next hone =>
          obtain rfl := Option.some.inj hq
          rw [hone] at hpairs hrun hall2
          obtain ⟨-, hrest⟩ := single_wing hrun rfl h3 (by decide) hpairs.1
          rw [hrest] at hpairs hall2
          obtain ⟨w, hw, hamount⟩ := hranked.wing_amount (.inr rfl) hpairs.1 fun _ => hall2
          exact ⟨by simp, htwo 2 w hw hamount (.inr rfl)⟩
        · obtain rfl := Option.some.inj hq
          refine ⟨by simp, norByCpData_feiji (k := 2) hrun hlen ?_ fun r => ?_⟩
          · have hsum := hpairs.1
            rw [List.map_congr_left hall2] at hsum
            simp at hsum
            simpa using hsum
          · rw [count_double_wings hall2]
      · cases hq

theorem Ranked.norRun_eq {first second : PaiCount} {rest : List PaiCount} {k : Nat}
    (h : Ranked (first :: second :: rest)) (hk : first.amount = k)
    (hall : ∀ p ∈ second :: rest, p.amount = k)
    (hlast : ((rest.getLastD second).type : Int) - first.type = (rest.length + 2 : Nat) - 1) :
    norRun first.type (rest.getLastD second).type k = amountOf (first :: second :: rest) := by
  have hall' : ∀ p ∈ first :: second :: rest, p.amount = k := by
    simpa using ⟨hk, by simpa using hall⟩
  have hend : ((second :: rest).getLastD first).type = first.type + (rest.length + 2) - 1 := by
    rw [List.getLastD_cons]
    omega
  rw [h.eq_runCounts hall' (by rw [hend, List.length_cons]; omega),
    ← norRun_eq_amountOf k (by omega), ← List.getLastD_cons, hend, List.length_cons]

theorem norByCpData_counts {l : List PaiCount} {q : PaiType} (hranked : Ranked l)
    (hq : paiTypeOfCounts 0 l = some q) :
    q.type ≠ 0 ∧ norByCpData q.type q.pai = some (amountOf l) := by
  rcases l with _ | ⟨first, _ | ⟨second, rest⟩⟩
  · cases hq
  · -- one rank
    have hpos := hranked.pos first (by simp)
    have hone : Function.update (fun _ => 0) first.type first.amount = amountOf [first] := by
      funext r
      simp [amountOf, Function.update_apply, eq_comm]
    simp only [paiTypeOfCounts] at hq
    split at hq
    · next h4 =>
      rw [if_neg (by decide)] at hq
      obtain rfl := Option.some.inj hq
      rw [h4] at hone
      exact ⟨by simp, congrArg some hone⟩
    · split at hq
      · next h4 =>
        obtain rfl := Option.some.inj hq
        have hlow : first.amount ≤ 3 := by omega
        exact ⟨hpos.ne', (if_pos hlow).trans (congrArg some hone)⟩
      · cases hq
  · -- several ranks
    have hle := hranked.amount_le
    have hpos := hranked.pos
    simp only [paiTypeOfCounts] at hq
    split at hq
    · next h4 =>
      rcases rest with _ | ⟨third, _ | ⟨fourth, rest⟩⟩
      · -- a four and one more rank
        dsimp only at hq
        split at hq
        · next hpair =>
          obtain rfl := Option.some.inj hq
          refine ⟨by simp, congrArg some ?_⟩
          rw [← hranked.update_two, h4, hpair]
          funext r
          simp only [addWings, List.foldl_cons, List.foldl_nil, Function.update_self,
            Function.update_idem]
        · cases hq
      · -- a four and two more ranks
        have hthree := hranked.update_three
        dsimp only at hq
        split at hq
        · next hwings =>
          obtain rfl := Option.some.inj hq
          rw [h4, hwings.1, hwings.2.1] at hthree
          exact ⟨by simp, congrArg some hthree⟩
        · split at hq
          · next hwings =>
            obtain rfl := Option.some.inj hq
            rw [h4, hwings.1, hwings.2] at hthree
            exact ⟨by simp, congrArg some hthree⟩
          · cases hq
      · cases hq
    · split at hq
      · next h2 =>
        split at hq
        · next hrun =>
          obtain rfl := Option.some.inj hq
          have hall : ∀ p ∈ second :: rest, p.amount = 2 := by simpa using hrun.2.1
          exact ⟨by simp, congrArg some (hranked.norRun_eq h2 hall hrun.2.2.2)⟩
        · cases hq
      · split at hq
        · next h1 =>
          have hall : ∀ p ∈ second :: rest, p.amount = 1 := by
            intro p hp
            have h₁ := hle p hp
            have h₂ := hpos p (List.mem_cons_of_mem _ hp)
            omega
          split at hq
          · next htwo =>
            split at hq
            · next hboss =>
              obtain rfl := Option.some.inj hq
              obtain rfl : rest = [] := List.length_eq_zero_iff.mp (by omega)
              have hrocket := hranked.update_two
              rw [h1, hall second (by simp), hboss.1, hboss.2] at hrocket
              exact ⟨by simp, congrArg some hrocket⟩
            · cases hq
          · split at hq
            · next hrun =>
              obtain rfl := Option.some.inj hq
              exact ⟨by simp, congrArg some (hranked.norRun_eq h1 hall hrun.2.2)⟩
            · cases hq
        · split at hq
          · next h3 => exact norByCpData_triple hranked h3 hq
          · cases hq

/-! ## The cards of a classified list -/

def rankCount (ids : List Nat) (r : Nat) : Nat := ids.countP fun id => paiMap id = r

theorem rankCount_eq_zero {ids : List Nat} (hids : ∀ id ∈ ids, 1 ≤ id ∧ id ≤ 54) {r : Nat}
    (hr : r ∉ paiRanks) : rankCount ids r = 0 := by
  rw [rankCount, List.countP_eq_zero]
  intro id hid hrank
  have hmem := paiMap_mem_paiRanks (hids id hid).1 (hids id hid).2
  rw [of_decide_eq_true hrank] at hmem
  exact hr hmem

theorem getPaiType_rankCount {ids : List Nat} (hne : ids ≠ [])
    (hids : ∀ id ∈ ids, 1 ≤ id ∧ id ≤ 54) (lz : Nat) :
    getPaiType ids lz = some (paiTypeOfCounts lz (sortPaiByAmount (rankCount ids))) := by
  have hany : ¬ (ids.any fun id => paiMap id = 0) = true := by
    rw [Bool.not_eq_true, List.any_eq_false]
    intro id hid hzero
    have hmem := paiMap_mem_paiRanks (hids id hid).1 (hids id hid).2
    rw [of_decide_eq_true hzero, mem_paiRanks] at hmem
    omega
  rw [getPaiType, if_neg hne, getPaiTypeHashByList, if_neg hany]
  rfl

theorem rankCount_le_hash {ids : List Nat} {hand : Finset Nat} (hnodup : ids.Nodup)
    (hsub : ∀ id ∈ ids, id ∈ hand) (r : Nat) : rankCount ids r ≤ getPaiTypeHash hand r := by
  rw [rankCount, List.countP_eq_length_filter, getPaiTypeHash,
    ← List.toFinset_card_of_nodup (hnodup.filter _)]
  refine Finset.card_le_card fun id hid => ?_
  obtain ⟨hmem, hrank⟩ := List.mem_filter.mp (List.mem_toFinset.mp hid)
  exact Finset.mem_filter.mpr ⟨hsub id hmem, of_decide_eq_true hrank⟩

theorem norIds_rankCount {hand : Finset Nat} {use : UseInfo}
    (hle : ∀ r ∈ paiRanks, use.nor r ≤ getPaiTypeHash hand r) {r : Nat} (hr : r ∈ paiRanks) :
    rankCount (getCpListByUseInfo hand use).norIds r = use.nor r := by
  rw [rankCount, norIds_getCpListByUseInfo,
    countP_flatMap paiRanks_nodup fun r hr id hid => (mem_getPaiListByType hr hid).2,
    if_pos hr, length_getPaiListByType hr (hle r hr)]

/-- The type and the key ranks of a list of cards determine how many cards of each rank it
holds. -/
theorem getPaiType_lossless {ids : List Nat} {q : PaiType} (hne : ids ≠ [])
    (hnodup : ids.Nodup) (hids : ∀ id ∈ ids, 1 ≤ id ∧ id ≤ 54)
    (hq : getPaiType ids 0 = some (some q)) :
    (∃ use, getUseInfoByCpData q.type q.pai = some (some use) ∧
      (∀ r, use.nor r = rankCount ids r) ∧ ∀ r, use.lz r = 0) ∧
    (∀ hand : Finset Nat, (∀ id ∈ ids, id ∈ hand) →
      ∃ c, getCpListByCpData hand q.type q.pai = some (some c) ∧ c.lzIds = [] ∧
        c.norIds.Nodup ∧ (∀ id ∈ c.norIds, id ∈ hand) ∧
        ∀ r, rankCount c.norIds r = rankCount ids r) ∧
    ∀ ids' : List Nat, ids' ≠ [] → (∀ id ∈ ids', 1 ≤ id ∧ id ≤ 54) →
      getPaiType ids' 0 = some (some q) → (ids.map paiMap).Perm (ids'.map paiMap) := by
  have hdecode : ∀ l : List Nat, l ≠ [] → (∀ id ∈ l, 1 ≤ id ∧ id ≤ 54) →
      getPaiType l 0 = some (some q) →
      q.type ≠ 0 ∧ norByCpData q.type q.pai = some (rankCount l) := by
    intro l hl hids hq
    rw [getPaiType_rankCount hl hids] at hq
    obtain ⟨htype, hnor⟩ := norByCpData_counts (ranked_sort _) (Option.some.inj hq)
    refine ⟨htype, hnor.trans (congrArg some ?_)⟩
    funext r
    rw [amountOf_sort]
    split
    · rfl
    · next hr => exact (rankCount_eq_zero hids hr).symm
  obtain ⟨htype, hnor⟩ := hdecode ids hne hids hq
  have huse : getUseInfoByCpData q.type q.pai = some (some ⟨rankCount ids, fun _ => 0⟩) := by
    rw [getUseInfoByCpData, if_neg htype, hnor]
    rfl
  refine ⟨⟨_, huse, fun _ => rfl, fun _ => rfl⟩, fun hand hsub => ?_, fun ids' hne' hids' hq' => ?_⟩
  · have hmem : ∀ id ∈ (getCpListByUseInfo hand ⟨rankCount ids, fun _ => 0⟩).norIds,
        id ∈ hand ∧ paiMap id ∈ paiRanks := by
      intro id hid
      rw [norIds_getCpListByUseInfo, List.mem_flatMap] at hid
      obtain ⟨r, hr, hid⟩ := hid
      obtain ⟨hhand, hrank⟩ := mem_getPaiListByType hr hid
      exact ⟨hhand, hrank ▸ hr⟩
    refine ⟨getCpListByUseInfo hand ⟨rankCount ids, fun _ => 0⟩, ?_, ?_, norIds_nodup,
      fun id hid => (hmem id hid).1, fun r => ?_⟩
    · rw [getCpListByCpData, huse]
      rfl
    · rw [lzIds_getCpListByUseInfo, List.flatMap_eq_nil_iff]
      exact fun r _ => rfl
    · by_cases hr : r ∈ paiRanks
      · exact norIds_rankCount (fun r _ => rankCount_le_hash hnodup hsub r) hr
      · rw [rankCount_eq_zero hids hr, rankCount, List.countP_eq_zero]
        intro id hid hrank
        exact hr (of_decide_eq_true hrank ▸ (hmem id hid).2)
  · have hsame : rankCount ids = rankCount ids' :=
      Option.some.inj (hnor.symm.trans (hdecode ids' hne' hids' hq').2)
    refine List.perm_iff_count.mpr fun r => ?_
    have := congrFun hsame r
    simpa [rankCount, List.count_eq_countP, List.countP_map, Function.comp_def, beq_eq_decide]
      using this

/-- Three threes, three fours, and a pair of nines as the wings. -/
theorem getPaiType_lossless_wings :
    getPaiType [1, 2, 3, 5, 6, 7, 25, 26] 0 = some (some ⟨10, [3, 4, 9, 9]⟩) ∧
      ∃ use, getUseInfoByCpData 10 [3, 4, 9, 9] = some (some use) ∧
        (∀ r, use.nor r = rankCount [1, 2, 3, 5, 6, 7, 25, 26] r) ∧ ∀ r, use.lz r = 0 := by
  have hq : getPaiType [1, 2, 3, 5, 6, 7, 25, 26] 0 = some (some ⟨10, [3, 4, 9, 9]⟩) := by
    decide +kernel
  exact ⟨hq, (getPaiType_lossless (by decide) (by decide) (by decide) hq).1⟩

end JyQipai.Ddz
