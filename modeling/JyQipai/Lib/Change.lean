import Mathlib.Algebra.Order.BigOperators.Group.List
import Mathlib.Tactic.Ring
import Mathlib.Tactic.Linarith

/-!
# Paying with pieces

An amount is paid with pieces of several kinds, the dearest kind first, as far as the stock of
each kind goes.  When the price of each kind divides those before it, no choice of pieces that
does not pay too much leaves less to pay.
-/

namespace JyQipai.Lib

variable {ι : Type} (price stock : ι → ℤ)

def pieces (i : ι) (left : ℤ) : ℤ := max 0 (min (left / price i) (stock i))

def leftOver : List ι → ℤ → ℤ
  | [], left => left
  | i :: is, left => leftOver is (left - pieces price stock i left * price i)

def valueOf (count : ι → ℤ) (is : List ι) : ℤ := (is.map fun i => count i * price i).sum

def InStock (count : ι → ℤ) (is : List ι) : Prop :=
  ∀ i ∈ is, 0 ≤ count i ∧ (count i = 0 ∨ count i ≤ stock i)

def Chain (is : List ι) : Prop := is.Pairwise fun i j => price j ∣ price i

variable {price stock} {is : List ι} {count count' : ι → ℤ} {i : ι} {left : ℤ}

@[simp] theorem valueOf_nil : valueOf price count [] = 0 := rfl

@[simp] theorem valueOf_cons :
    valueOf price count (i :: is) = count i * price i + valueOf price count is := by
  simp [valueOf]

theorem valueOf_congr (h : ∀ i ∈ is, count i = count' i) :
    valueOf price count is = valueOf price count' is := by
  rw [valueOf, valueOf, List.map_congr_left fun i hi => by rw [h i hi]]

theorem valueOf_sub (price count count' : ι → ℤ) (is : List ι) :
    valueOf price (fun i => count i - count' i) is =
      valueOf price count is - valueOf price count' is := by
  induction is with
  | nil => simp
  | cons i is ih =>
      simp [ih]
      ring

theorem valueOf_nonneg (hprice : ∀ i ∈ is, 0 < price i) (h : ∀ i ∈ is, 0 ≤ count i) :
    0 ≤ valueOf price count is := by
  refine List.sum_nonneg fun x hx => ?_
  obtain ⟨i, hi, rfl⟩ := List.mem_map.mp hx
  exact mul_nonneg (h i hi) (hprice i hi).le

/-! ## What is left -/

theorem pieces_nonneg : 0 ≤ pieces price stock i left := le_max_left ..

theorem pieces_mul_le (stock : ι → ℤ) (hprice : 0 < price i) (hleft : 0 ≤ left) :
    pieces price stock i left * price i ≤ left := by
  have hdiv : left / price i * price i ≤ left := Int.ediv_mul_le left hprice.ne'
  have hnonneg : 0 ≤ left / price i := Int.ediv_nonneg hleft hprice.le
  have hle : pieces price stock i left ≤ left / price i :=
    max_le hnonneg (min_le_left ..)
  exact (mul_le_mul_of_nonneg_right hle hprice.le).trans hdiv

theorem leftOver_le (stock : ι → ℤ) (hprice : ∀ i ∈ is, 0 < price i) (hleft : 0 ≤ left) :
    leftOver price stock is left ≤ left ∧ 0 ≤ leftOver price stock is left := by
  induction is generalizing left with
  | nil => exact ⟨le_rfl, hleft⟩
  | cons i is ih =>
      have hi := hprice i List.mem_cons_self
      have hmul := pieces_mul_le stock hi hleft
      have hnonneg : 0 ≤ pieces price stock i left * price i := mul_nonneg pieces_nonneg hi.le
      obtain ⟨hle, hpos⟩ := ih (fun j hj => hprice j (List.mem_cons_of_mem i hj))
        (show 0 ≤ left - pieces price stock i left * price i by omega)
      exact ⟨by simp only [leftOver]; omega, hpos⟩

theorem count_le_pieces (hprice : 0 < price i)
    (hstock : count i = 0 ∨ count i ≤ stock i) (hle : count i * price i ≤ left) :
    count i ≤ pieces price stock i left := by
  rcases hstock with hzero | hstock
  · rw [hzero]
    exact pieces_nonneg
  · have hdiv : count i ≤ left / price i := (Int.le_ediv_iff_mul_le hprice).mpr hle
    exact (le_min hdiv hstock).trans (le_max_right ..)

/-! ## The choice is the best -/

variable [DecidableEq ι]

theorem exists_valueOf_eq (hprice : ∀ i ∈ is, 0 < price i) (hnodup : is.Nodup)
    (hchain : Chain price is) {total : ℤ} (htotal : 0 ≤ total) (hdvd : ∀ i ∈ is, price i ∣ total)
    (hcount : ∀ i ∈ is, 0 ≤ count i) (hle : total ≤ valueOf price count is) :
    ∃ count' : ι → ℤ, (∀ i ∈ is, 0 ≤ count' i ∧ count' i ≤ count i) ∧
      valueOf price count' is = total := by
  induction is generalizing total with
  | nil =>
      rw [valueOf_nil] at hle
      exact ⟨fun _ => 0, by simp, by rw [valueOf_nil]; omega⟩
  | cons i is ih =>
      obtain ⟨hi, hnodup⟩ := List.nodup_cons.mp hnodup
      obtain ⟨hfirst, hchain⟩ := List.pairwise_cons.mp hchain
      have hpos := hprice i List.mem_cons_self
      obtain ⟨k, rfl⟩ := hdvd i List.mem_cons_self
      have hk : 0 ≤ k := nonneg_of_mul_nonneg_right htotal hpos
      have hrest (j : ι) (hj : j ∈ is) : j ≠ i := fun heq => hi (heq ▸ hj)
      rw [valueOf_cons] at hle
      rcases le_total k (count i) with hfew | hmany
      · -- the first kind is enough
        have hzero : valueOf price (Function.update (fun _ => 0) i k) is = 0 := by
          rw [valueOf_congr fun j hj => Function.update_of_ne (hrest j hj) ..]
          simp [valueOf]
        refine ⟨Function.update (fun _ => 0) i k, fun j hj => ?_, ?_⟩
        · rcases List.mem_cons.mp hj with rfl | hj
          · rw [Function.update_self]
            exact ⟨hk, hfew⟩
          · rw [Function.update_of_ne (hrest j hj)]
            exact ⟨le_rfl, hcount j (List.mem_cons_of_mem i hj)⟩
        · rw [valueOf_cons, Function.update_self, hzero, add_zero, mul_comm]
      · have hnonneg : 0 ≤ (k - count i) * price i :=
          mul_nonneg (sub_nonneg.mpr hmany) hpos.le
        have hexpand : (k - count i) * price i = price i * k - count i * price i := by ring
        obtain ⟨count', hcount', hvalue⟩ := ih (fun j hj => hprice j (List.mem_cons_of_mem i hj))
          hnodup hchain hnonneg (fun j hj => (hfirst j hj).mul_left _)
          (fun j hj => hcount j (List.mem_cons_of_mem i hj)) (by omega)
        have hsame : valueOf price (Function.update count' i (count i)) is =
            valueOf price count' is :=
          valueOf_congr fun j hj => Function.update_of_ne (hrest j hj) ..
        refine ⟨Function.update count' i (count i), fun j hj => ?_, ?_⟩
        · rcases List.mem_cons.mp hj with rfl | hj
          · rw [Function.update_self]
            exact ⟨hcount j List.mem_cons_self, le_rfl⟩
          · rw [Function.update_of_ne (hrest j hj)]
            exact hcount' j hj
        · rw [valueOf_cons, Function.update_self, hsame, hvalue]
          omega

theorem leftOver_le_sub (hprice : ∀ i ∈ is, 0 < price i) (hnodup : is.Nodup)
    (hchain : Chain price is) (hstock : InStock stock count is)
    (hle : valueOf price count is ≤ left) :
    leftOver price stock is left ≤ left - valueOf price count is := by
  induction is generalizing left count with
  | nil => simp [leftOver]
  | cons i is ih =>
      obtain ⟨-, hnodup'⟩ := List.nodup_cons.mp hnodup
      obtain ⟨hfirst, hchain'⟩ := List.pairwise_cons.mp hchain
      have hpos := hprice i List.mem_cons_self
      have hprice' (j : ι) (hj : j ∈ is) := hprice j (List.mem_cons_of_mem i hj)
      have hstock' (j : ι) (hj : j ∈ is) := hstock j (List.mem_cons_of_mem i hj)
      obtain ⟨hcount, hheld⟩ := hstock i List.mem_cons_self
      have hrest := valueOf_nonneg hprice' fun j hj => (hstock' j hj).1
      have hfront : 0 ≤ count i * price i := mul_nonneg hcount hpos.le
      rw [valueOf_cons] at hle
      have hpieces := count_le_pieces hpos hheld (show count i * price i ≤ left by omega)
      have hmul := pieces_mul_le stock hpos (show 0 ≤ left by omega)
      rw [leftOver, valueOf_cons]
      generalize pieces price stock i left = g at hpieces hmul ⊢
      -- the pieces of the first kind that the choice does without
      have hmore : 0 ≤ (g - count i) * price i := mul_nonneg (sub_nonneg.mpr hpieces) hpos.le
      have hexpand : (g - count i) * price i = g * price i - count i * price i := by ring
      rcases le_total (valueOf price count is) ((g - count i) * price i) with hsmall | hlarge
      · have hbound := (leftOver_le stock hprice' (show 0 ≤ left - g * price i by omega)).1
        omega
      · obtain ⟨count', hcount', hvalue⟩ := exists_valueOf_eq hprice' hnodup' hchain' hmore
          (fun j hj => (hfirst j hj).mul_left _) (fun j hj => (hstock' j hj).1) hlarge
        have hsub := valueOf_sub price count count' is
        have hrest' : InStock stock (fun j => count j - count' j) is := by
          intro j hj
          have hc := hcount' j hj
          dsimp only
          rcases (hstock' j hj).2 with hzero | hheld'
          · exact ⟨by omega, .inl (by omega)⟩
          · exact ⟨by omega, .inr (by omega)⟩
        have hbest := ih hprice' hnodup' hchain' hrest'
          (show valueOf price (fun j => count j - count' j) is ≤ left - g * price i by omega)
        omega

end JyQipai.Lib
