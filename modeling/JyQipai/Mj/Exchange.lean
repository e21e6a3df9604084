import JyQipai.Lib.WriteBack
import JyQipai.Mj.Room

/-!
# The exchange that is taken back

`huan_pai` exchanges tiles of a hand for random tiles of the pool, and takes the exchange back
if the copies of some tile do not add up afterwards.  It takes it back in the order in which it
was made, and counts a tile that the hand has no entry for as one that has gone.
-/

namespace JyQipai.Mj

open JyQipai.Lib

/-- `special_deal_data[seat]`: the tiles kept back for a seat. -/
structure SpecialDeal where
  mopaiList : List Nat := []
  hupai : Option Nat := none

def specialCopies (special : List SpecialDeal) (pai : Nat) : Nat :=
  (special.map fun d => d.mopaiList.count pai + if d.hupai = some pai then 1 else 0).sum

namespace Table

def exchanged (t : Table) (seat : Nat) (old : List Nat) : Table × List (Nat × Nat × Nat) :=
  old.zipIdx.foldl (fun r x => swapOne seat r x.1 x.2) (t, [])

def HuanPaiError (t : Table) (special : List SpecialDeal) : Prop :=
  ∃ id ∈ paiIds, t.copies id + specialCopies special id ≠ 0 ∧
    t.copies id + specialCopies special id ≠ 4

instance (t : Table) (special : List SpecialDeal) : Decidable (t.HuanPaiError special) :=
  inferInstanceAs (Decidable (∃ id ∈ paiIds, _))

def huanPaiVec (t : Table) (special : List SpecialDeal) (seat : Nat) (old : List Nat) :
    Table × List Nat :=
  if t.paiPool = [] then (t, old)
  else
    let r := t.exchanged seat old
    if r.1.HuanPaiError special then (r.2.foldl (swapBack seat) r.1, old)
    else (r.1, r.2.map fun x => x.2.2)

/-! ## The hand -/

def less (m : PaiMap) (pai : Nat) : PaiMap := Function.update m pai ((m pai).map (· - 1))

def trade (m : PaiMap) (x : Nat × Nat × Nat) : PaiMap := (less m x.2.1).add x.2.2

def tradeBack (m : PaiMap) (x : Nat × Nat × Nat) : PaiMap := less (m.add x.2.1) x.2.2

def traded (s : Nat) (x : Nat × Nat × Nat) : Int :=
  (if x.2.2 = s then 1 else 0) - if x.2.1 = s then 1 else 0

variable {m : PaiMap} {s pai : Nat} {x : Nat × Nat × Nat} {log : List (Nat × Nat × Nat)}

theorem less_of_held {n : Int} (h : m s = some n) :
    less m pai s = some (n - if pai = s then 1 else 0) := by
  by_cases hs : pai = s
  · subst hs
    rw [less, Function.update_self, h, Option.map_some, if_pos rfl]
  · rw [less, Function.update_of_ne (Ne.symm hs), h, if_neg hs, sub_zero]

theorem add_of_held {n : Int} (h : m s = some n) :
    m.add pai s = some (n + if pai = s then 1 else 0) := by
  by_cases hs : pai = s
  · subst hs
    rw [PaiMap.add, Function.update_self, PaiMap.num, h, Option.getD_some, if_pos rfl]
  · rw [PaiMap.add, Function.update_of_ne (Ne.symm hs), h, if_neg hs, add_zero]

theorem trade_of_held {n : Int} (h : m s = some n) : trade m x s = some (n + traded s x) := by
  rw [trade, add_of_held (less_of_held h), traded]
  congr 1
  ring

theorem tradeBack_of_held {n : Int} (h : m s = some n) :
    tradeBack m x s = some (n - traded s x) := by
  rw [tradeBack, less_of_held (add_of_held h), traded]
  congr 1
  ring

theorem foldl_trade_of_held {n : Int} (h : m s = some n) :
    log.foldl trade m s = some (n + (log.map (traded s)).sum) := by
  induction log generalizing m n with
  | nil => exact h.trans (congrArg some (add_zero n).symm)
  | cons x log ih =>
      rw [List.foldl_cons, ih (trade_of_held h), List.map_cons, List.sum_cons, add_assoc]

theorem foldl_tradeBack_of_held {n : Int} (h : m s = some n) :
    log.foldl tradeBack m s = some (n - (log.map (traded s)).sum) := by
  induction log generalizing m n with
  | nil => exact h.trans (congrArg some (sub_zero n).symm)
  | cons x log ih =>
      rw [List.foldl_cons, ih (tradeBack_of_held h), List.map_cons, List.sum_cons, sub_sub]

theorem add_self_isSome (m : PaiMap) (pai : Nat) : (m.add pai pai).isSome := by
  rw [PaiMap.add, Function.update_self]
  rfl

theorem foldl_trade_isSome (hx : x ∈ log) : (log.foldl trade m x.2.2).isSome := by
  induction log generalizing m with
  | nil => exact absurd hx List.not_mem_nil
  | cons y log ih =>
      rcases List.mem_cons.mp hx with rfl | hx
      · obtain ⟨n, hn⟩ := Option.isSome_iff_exists.mp
          (add_self_isSome (less m x.2.1) x.2.2)
        rw [List.foldl_cons, foldl_trade_of_held (m := trade m x) hn]
        rfl
      · exact ih hx

theorem foldl_tradeBack_isSome (hx : x ∈ log) : (log.foldl tradeBack m x.2.1).isSome := by
  induction log generalizing m with
  | nil => exact absurd hx List.not_mem_nil
  | cons y log ih =>
      rcases List.mem_cons.mp hx with rfl | hx
      · obtain ⟨n, hn⟩ := Option.isSome_iff_exists.mp (add_self_isSome m x.2.1)
        rw [List.foldl_cons, foldl_tradeBack_of_held (m := tradeBack m x) (less_of_held hn)]
        rfl
      · exact ih hx

theorem foldl_trade_of_untouched (h : ∀ x ∈ log, x.2.1 ≠ s ∧ x.2.2 ≠ s) :
    log.foldl trade m s = m s := by
  induction log generalizing m with
  | nil => rfl
  | cons x log ih =>
      obtain ⟨⟨hold, hnew⟩, h⟩ := List.forall_mem_cons.mp h
      rw [List.foldl_cons, ih h, trade, PaiMap.add, Function.update_of_ne hnew.symm, less,
        Function.update_of_ne hold.symm]

theorem foldl_tradeBack_of_untouched (h : ∀ x ∈ log, x.2.1 ≠ s ∧ x.2.2 ≠ s) :
    log.foldl tradeBack m s = m s := by
  induction log generalizing m with
  | nil => rfl
  | cons x log ih =>
      obtain ⟨⟨hold, hnew⟩, h⟩ := List.forall_mem_cons.mp h
      rw [List.foldl_cons, ih h, tradeBack, less, Function.update_of_ne hnew.symm, PaiMap.add,
        Function.update_of_ne hold.symm]

theorem tradeBack_trade_iff :
    log.foldl tradeBack (log.foldl trade m) = m ↔
      ∀ x ∈ log, (m x.2.1).isSome ∧ (m x.2.2).isSome := by
  constructor
  · intro h x hx
    have hold := foldl_tradeBack_isSome (m := log.foldl trade m) hx
    obtain ⟨n, hn⟩ := Option.isSome_iff_exists.mp (foldl_trade_isSome (m := m) hx)
    have hnew : log.foldl tradeBack (log.foldl trade m) x.2.2 = _ := foldl_tradeBack_of_held hn
    rw [h] at hold hnew
    exact ⟨hold, Option.isSome_iff_exists.mpr ⟨_, hnew⟩⟩
  · intro h
    funext s
    cases hs : m s with
    | some n =>
        rw [foldl_tradeBack_of_held (foldl_trade_of_held hs), add_sub_cancel_right]
    | none =>
        have hother : ∀ x ∈ log, x.2.1 ≠ s ∧ x.2.2 ≠ s := by
          intro x hx
          obtain ⟨hold, hnew⟩ := h x hx
          constructor
          · rintro rfl
            exact absurd hold (by simp [hs])
          · rintro rfl
            exact absurd hnew (by simp [hs])
        rw [foldl_tradeBack_of_untouched hother, foldl_trade_of_untouched hother, hs]

/-! ## The table -/

def drawnAt (t : Table) (k : Nat) : Nat :=
  t.paiPool.length - random t.rand k 1 t.paiPool.length

def laid (t : Table) (old : List Nat) : List (Nat × Nat) :=
  old.zipIdx.map fun x => (t.drawnAt x.2, x.1)

theorem foldl_swapOne (seat : Nat) (l : List (Nat × Nat)) (t : Table)
    (log : List (Nat × Nat × Nat)) :
    let ops := l.map fun x => (t.drawnAt x.2, x.1)
    let r := l.foldl (fun r x => swapOne seat r x.1 x.2) (t, log)
    r.1.paiPool = (overwrite 0 t.paiPool ops).1 ∧
      r.2 = log ++ (overwrite 0 t.paiPool ops).2 ∧
      (r.1.seat seat).pai = (overwrite 0 t.paiPool ops).2.foldl trade (t.seat seat).pai := by
  induction l generalizing t log with
  | nil => exact ⟨rfl, (List.append_nil log).symm, rfl⟩
  | cons x l ih =>
      let i := t.drawnAt x.2
      let u : Table := ({ t with paiPool := t.paiPool.set i x.1 }).setSeat seat fun d =>
        { d with pai := trade d.pai (i, x.1, t.paiPool.getD i 0) }
      have hdraw (k : Nat) : u.drawnAt k = t.drawnAt k := by
        change (t.paiPool.set i x.1).length - random t.rand k 1 (t.paiPool.set i x.1).length = _
        rw [List.length_set]
        rfl
      obtain ⟨hpool, hlog, hhand⟩ := ih u (log ++ [(i, x.1, t.paiPool.getD i 0)])
      simp only [hdraw] at hpool hlog hhand
      refine ⟨hpool, hlog.trans (List.append_assoc ..), hhand.trans ?_⟩
      have hseat : (u.seat seat).pai = trade (t.seat seat).pai (i, x.1, t.paiPool.getD i 0) := by
        change (Function.update t.seat seat _ seat).pai = _
        rw [Function.update_self]
      rw [hseat]
      rfl

theorem foldl_swapBack (seat : Nat) (log : List (Nat × Nat × Nat)) (t : Table) :
    (log.foldl (swapBack seat) t).paiPool = writeBack t.paiPool log ∧
      ((log.foldl (swapBack seat) t).seat seat).pai = log.foldl tradeBack (t.seat seat).pai := by
  induction log generalizing t with
  | nil => exact ⟨rfl, rfl⟩
  | cons x log ih =>
      obtain ⟨hpool, hhand⟩ := ih (swapBack seat t x)
      refine ⟨hpool, hhand.trans ?_⟩
      have hseat : ((swapBack seat t x).seat seat).pai = tradeBack (t.seat seat).pai x := by
        change (Function.update t.seat seat _ seat).pai = _
        rw [Function.update_self]
        rfl
      rw [hseat]
      rfl

theorem forall_laid_iff {t : Table} {old : List Nat} {P : Nat → Prop} :
    (∀ x ∈ t.laid old, P x.1) ↔ ∀ k < old.length, P (t.drawnAt k) := by
  constructor
  · intro h k hk
    refine h (t.drawnAt k, old[k]) (List.mem_map.mpr ⟨(old[k], k), ?_, rfl⟩)
    exact List.mem_zipIdx_iff_getElem?.mpr (List.getElem?_eq_getElem hk)
  · intro h x hx
    obtain ⟨y, hy, rfl⟩ := List.mem_map.mp hx
    obtain ⟨hlt, -⟩ := List.getElem?_eq_some_iff.mp (List.mem_zipIdx_iff_getElem?.mp hy)
    exact h y.2 hlt

theorem map_snd_laid (t : Table) (old : List Nat) : (t.laid old).map Prod.snd = old := by
  rw [laid, List.map_map]
  exact List.zipIdx_map_fst 0 old

theorem forall_log_iff {t : Table} {old : List Nat} {P : Nat → Prop} :
    (∀ x ∈ (overwrite 0 t.paiPool (t.laid old)).2, P x.2.1 ∧ P x.2.2) ↔
      (∀ x ∈ old, P x) ∧ ∀ k < old.length, P (t.paiPool.getD (t.drawnAt k) 0) := by
  have hgiven : (overwrite 0 t.paiPool (t.laid old)).2.map (fun x => x.2.1) = old := by
    have hops := congrArg (List.map Prod.snd) (overwrite_ops 0 t.paiPool (t.laid old))
    rw [List.map_map, map_snd_laid] at hops
    exact hops
  have hold : (∀ x ∈ (overwrite 0 t.paiPool (t.laid old)).2, P x.2.1) ↔ ∀ x ∈ old, P x := by
    conv_rhs => rw [← hgiven]
    rw [List.forall_mem_map]
  rw [forall₂_and, hold]
  refine and_congr_right fun h => ?_
  rw [forall_noted_iff, forall_laid_iff (P := fun i => P (t.paiPool.getD i 0))]
  intro x hx
  have hmem := List.mem_map_of_mem (f := Prod.snd) hx
  rw [map_snd_laid] at hmem
  exact h x.2 hmem

/-- A failed exchange is undone exactly if the hand has an entry for each tile that it gives and
for each tile that lies at a drawn position, and the tile laid at a position by its last draw but
one is the tile that lay there at first. -/
theorem huanPaiVec_undone_iff (t : Table) (special : List SpecialDeal) (seat : Nat)
    (old : List Nat) (hpool : t.paiPool ≠ [])
    (herr : (t.exchanged seat old).1.HuanPaiError special) :
    ((t.huanPaiVec special seat old).1.paiPool = t.paiPool ∧
        ((t.huanPaiVec special seat old).1.seat seat).pai = (t.seat seat).pai ∧
        (t.huanPaiVec special seat old).2 = old) ↔
      (∀ x ∈ old, ((t.seat seat).pai x).isSome) ∧
        (∀ k < old.length, ((t.seat seat).pai (t.paiPool.getD (t.drawnAt k) 0)).isSome) ∧
        ∀ p < t.paiPool.length, ∀ x ∈ (writtenAt (t.laid old) p).dropLast.getLast?,
          x = t.paiPool.getD p 0 := by
  have hback : t.huanPaiVec special seat old =
      ((t.exchanged seat old).2.foldl (swapBack seat) (t.exchanged seat old).1, old) := by
    rw [huanPaiVec, if_neg hpool]
    exact if_pos herr
  obtain ⟨hpool', hlog, hhand⟩ := foldl_swapOne seat old.zipIdx t []
  obtain ⟨hpool'', hhand'⟩ := foldl_swapBack seat (t.exchanged seat old).2 (t.exchanged seat old).1
  change (t.exchanged seat old).1.paiPool = (overwrite 0 t.paiPool (t.laid old)).1 at hpool'
  change (t.exchanged seat old).2 = (overwrite 0 t.paiPool (t.laid old)).2 at hlog
  change ((t.exchanged seat old).1.seat seat).pai =
    (overwrite 0 t.paiPool (t.laid old)).2.foldl trade (t.seat seat).pai at hhand
  rw [hback, hpool'', hhand', hpool', hhand, hlog, writeBack_overwrite_iff,
    tradeBack_trade_iff, forall_log_iff (P := fun x => ((t.seat seat).pai x).isSome)]
  tauto

def dealtTable : Table where
  cfg := { algo := { hupaiInfo := fun _ _ _ => none, maxTingTotal := fun _ _ _ => none } }
  paiPool := (allPai .xzdd).drop 52
  seat := fun s =>
    { pai := (((allPai .xzdd).drop (13 * (s - 1))).take 13).foldl PaiMap.add fun _ => none }

theorem huanPaiVec_undone_iff_dealt :
    ((dealtTable.huanPaiVec [] 1 [21]).1.paiPool = dealtTable.paiPool ∧
        ((dealtTable.huanPaiVec [] 1 [21]).1.seat 1).pai = (dealtTable.seat 1).pai ∧
        (dealtTable.huanPaiVec [] 1 [21]).2 = [21]) ↔
      (∀ x ∈ [21], ((dealtTable.seat 1).pai x).isSome) ∧
        (∀ k < [21].length,
          ((dealtTable.seat 1).pai (dealtTable.paiPool.getD (dealtTable.drawnAt k) 0)).isSome) ∧
        ∀ p < dealtTable.paiPool.length,
          ∀ x ∈ (writtenAt (dealtTable.laid [21]) p).dropLast.getLast?,
            x = dealtTable.paiPool.getD p 0 :=
  huanPaiVec_undone_iff dealtTable [] 1 [21] (by decide) (by decide +kernel)

def shortTable : Table :=
  { dealtTable with
    paiPool := dealtTable.paiPool.tail
    rand := id }

/-- The hand gives a tile that it does not have, and has one after the exchange is undone; or it
gives three tiles that it has, and keeps an entry of a tile that it has drawn. -/
theorem dealt_not_undone :
    ((∀ id ∈ paiIds, dealtTable.copies id = 4) ∧ dealtTable.paiPool ≠ [] ∧
      (dealtTable.exchanged 1 [21]).1.HuanPaiError [] ∧
      (dealtTable.seat 1).pai 21 = none ∧
      ((dealtTable.huanPaiVec [] 1 [21]).1.seat 1).pai 21 = some 1) ∧
    (∀ x ∈ [11, 12, 13], 0 < (shortTable.seat 1).pai.num x) ∧ shortTable.paiPool ≠ [] ∧
      (shortTable.exchanged 1 [11, 12, 13]).1.HuanPaiError [] ∧
      (shortTable.seat 1).pai 39 = none ∧
      ((shortTable.huanPaiVec [] 1 [11, 12, 13]).1.seat 1).pai 39 = some 0 := by
  decide +kernel

end Table

end JyQipai.Mj
