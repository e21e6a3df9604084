import Mathlib

/-!
# Doubles

The rounding of a non-negative number to the nearest double, with ties to even.  A number beyond
the doubles becomes infinite, which is `none` here.  Sums of powers of two that lie within 53
binary places are exact, and the natural numbers that are doubles are those sums.
-/

namespace JyQipai.Lib

def roundEven (x : ℚ) : ℤ :=
  if x - ⌊x⌋ < 1 / 2 then ⌊x⌋
  else if 1 / 2 < x - ⌊x⌋ then ⌊x⌋ + 1
  else if ⌊x⌋ % 2 = 0 then ⌊x⌋ else ⌊x⌋ + 1

def lastPlace (x : ℚ) : ℤ := max (Int.log 2 x) (-1022) - 52

def double (x : ℚ) : Option ℚ :=
  let y : ℚ := roundEven (x / 2 ^ lastPlace x) * 2 ^ lastPlace x
  if y < 2 ^ (1024 : ℕ) then some y else none

def addDouble (x y : Option ℚ) : Option ℚ := x.bind fun x => y.bind fun y => double (x + y)

def powDouble (e : ℤ) : Option ℚ := double (2 ^ e)

theorem roundEven_int (n : ℤ) : roundEven n = n := by
  unfold roundEven
  rw [Int.floor_intCast, sub_self, if_pos (by norm_num)]

theorem log_mul_two_pow {m : ℕ} (hm : m ≠ 0) (a : ℕ) : Nat.log 2 (m * 2 ^ a) = Nat.log 2 m + a := by
  induction a with
  | zero => simp
  | succ a ih =>
      have hpow : m * 2 ^ a ≠ 0 := mul_ne_zero hm (by positivity)
      rw [pow_succ, ← mul_assoc, Nat.log_mul_base Nat.one_lt_two hpow, ih, Nat.add_assoc]

theorem double_exact {m a : ℕ} (hm : m < 2 ^ 53) (hlt : m * 2 ^ a < 2 ^ 1024) :
    double ((m * 2 ^ a : ℕ) : ℚ) = some ((m * 2 ^ a : ℕ) : ℚ) := by
  unfold double
  rcases Nat.eq_zero_or_pos m with rfl | hpos
  · have hround : roundEven 0 = 0 := by exact_mod_cast roundEven_int 0
    simp only [zero_mul, Nat.cast_zero, zero_div, hround, Int.cast_zero]
    rw [if_pos (by positivity)]
  · have hlog : Nat.log 2 m ≤ 52 := Nat.lt_succ_iff.mp (Nat.log_lt_of_lt_pow hpos.ne' hm)
    obtain ⟨c, hc⟩ := Nat.exists_eq_add_of_le hlog
    have hplace : lastPlace ((m * 2 ^ a : ℕ) : ℚ) = (a : ℤ) - c := by
      rw [lastPlace, Int.log_natCast, log_mul_two_pow hpos.ne']
      push_cast
      omega
    have hpow : (2 : ℚ) ^ ((a : ℤ) - c) = 2 ^ a / 2 ^ c := by
      rw [zpow_sub₀ two_ne_zero, zpow_natCast, zpow_natCast]
    have hdiv : ((m * 2 ^ a : ℕ) : ℚ) / (2 ^ a / 2 ^ c) = ((m * 2 ^ c : ℕ) : ℤ) := by
      push_cast
      field_simp
    have hback : (((m * 2 ^ c : ℕ) : ℤ) : ℚ) * (2 ^ a / 2 ^ c) = ((m * 2 ^ a : ℕ) : ℚ) := by
      rw [← hdiv, div_mul_cancel₀]
      positivity
    simp only [hplace, hpow, hdiv, roundEven_int, hback]
    rw [if_pos (by exact_mod_cast hlt)]

theorem double_two_pow {a : ℕ} (ha : a < 1024) :
    double ((2 ^ a : ℕ) : ℚ) = some ((2 ^ a : ℕ) : ℚ) := by
  have hlt : 1 * 2 ^ a < 2 ^ 1024 := (one_mul _).trans_lt (Nat.pow_lt_pow_right Nat.one_lt_two ha)
  have hexact := double_exact (m := 1) (by norm_num) hlt
  rwa [one_mul] at hexact

/-! ## Sums of powers of two -/

theorem sum_two_pow_lt {l : List ℕ} {n : ℕ} (hl : l.Nodup) (hn : ∀ i ∈ l, i < n) :
    (l.map fun i => 2 ^ i).sum < 2 ^ n := by
  rw [← List.sum_toFinset (fun i => 2 ^ i) hl]
  exact Nat.geomSum_lt le_rfl fun i hi => hn i (List.mem_toFinset.mp hi)

theorem sum_two_pow_add (l : List ℕ) (a : ℕ) :
    (l.map fun i => 2 ^ (i + a)).sum = (l.map fun i => 2 ^ i).sum * 2 ^ a := by
  induction l with
  | nil => simp
  | cons i l ih => rw [List.map_cons, List.map_cons, List.sum_cons, List.sum_cons, ih, pow_add,
      add_mul]

def Narrow (l : List ℕ) : Prop := ∀ i ∈ l, i < 1024 ∧ ∀ j ∈ l, i < j + 53

instance : DecidablePred Narrow := fun l =>
  inferInstanceAs (Decidable (∀ i ∈ l, i < 1024 ∧ ∀ j ∈ l, i < j + 53))

theorem Narrow.subset {l l' : List ℕ} (h : Narrow l') (hsub : ∀ i ∈ l, i ∈ l') : Narrow l :=
  fun i hi => ⟨(h i (hsub i hi)).1, fun j hj => (h i (hsub i hi)).2 j (hsub j hj)⟩

theorem double_sum_two_pow {l : List ℕ} (hl : l.Nodup) (h : Narrow l) :
    double (((l.map fun i => 2 ^ i).sum : ℕ) : ℚ) =
      some (((l.map fun i => 2 ^ i).sum : ℕ) : ℚ) := by
  rcases l.eq_nil_or_concat with rfl | ⟨front, last, hconcat⟩
  · exact double_exact (m := 0) (a := 0) (by norm_num) (by norm_num)
  · have hne : l.toFinset.Nonempty := ⟨last, by simp [hconcat]⟩
    obtain ⟨a, ha, hmin⟩ := l.toFinset.exists_min_image id hne
    rw [List.mem_toFinset] at ha
    have hback : ((l.map fun i => i - a).map fun i => 2 ^ (i + a)) = l.map fun i => 2 ^ i := by
      rw [List.map_map]
      refine List.map_congr_left fun i hi => ?_
      have hle : a ≤ i := hmin i (List.mem_toFinset.mpr hi)
      simp only [Function.comp_apply]
      rw [Nat.sub_add_cancel hle]
    have hsum := sum_two_pow_add (l.map fun i => i - a) a
    rw [hback] at hsum
    have hnodup : (l.map fun i => i - a).Nodup := by
      refine hl.map_on fun i hi j hj heq => ?_
      have hi' : a ≤ i := hmin i (List.mem_toFinset.mpr hi)
      have hj' : a ≤ j := hmin j (List.mem_toFinset.mpr hj)
      omega
    have hsmall : ((l.map fun i => i - a).map fun i => 2 ^ i).sum < 2 ^ 53 := by
      refine sum_two_pow_lt hnodup fun i hi => ?_
      obtain ⟨j, hj, rfl⟩ := List.mem_map.mp hi
      have hwindow := (h j hj).2 a ha
      omega
    have hlt : (l.map fun i => 2 ^ i).sum < 2 ^ 1024 := sum_two_pow_lt hl fun i hi => (h i hi).1
    rw [hsum] at hlt ⊢
    exact double_exact hsmall hlt

/-! ## Natural numbers -/

theorem floor_le_roundEven (x : ℚ) : ⌊x⌋ ≤ roundEven x ∧ roundEven x ≤ ⌊x⌋ + 1 := by
  unfold roundEven
  split_ifs <;> omega

theorem double_natCast (n : ℕ) :
    ∃ m : ℕ, double (n : ℚ) = (if m * 2 ^ (Nat.log 2 n - 52) < 2 ^ 1024
        then some ((m * 2 ^ (Nat.log 2 n - 52) : ℕ) : ℚ) else none) ∧
      (2 ^ (Nat.log 2 n - 52) ∣ n → m * 2 ^ (Nat.log 2 n - 52) = n) ∧ m ≤ 2 ^ 53 ∧
      (n ≠ 0 → m ≠ 0) := by
  by_cases hlog : Nat.log 2 n ≤ 52
  · have hlt : n < 2 ^ 53 := Nat.lt_pow_of_log_lt Nat.one_lt_two (Nat.lt_succ_of_le hlog)
    have hmax : n * 2 ^ 0 < 2 ^ 1024 := by omega
    have hexact := double_exact hlt hmax
    rw [Nat.sub_eq_zero_of_le hlog]
    refine ⟨n, ?_, fun _ => mul_one n, hlt.le, id⟩
    rw [if_pos hmax, ← hexact, pow_zero, mul_one]
  · obtain ⟨u, hu⟩ := Nat.exists_eq_add_of_lt (Nat.not_le.mp hlog)
    have hpos : n ≠ 0 := by
      rintro rfl
      rw [Nat.log_zero_right] at hlog
      exact hlog (Nat.zero_le _)
    have hplace : lastPlace (n : ℚ) = ((u + 1 : ℕ) : ℤ) := by
      rw [lastPlace, Int.log_natCast, hu]
      push_cast
      omega
    have hsub : Nat.log 2 n - 52 = u + 1 := by omega
    have hlow : 2 ^ 52 ≤ n / 2 ^ (u + 1) := by
      rw [Nat.le_div_iff_mul_le (by positivity), ← pow_add]
      refine (Nat.pow_le_pow_right Nat.two_pos ?_).trans (Nat.pow_log_le_self 2 hpos)
      omega
    have hhigh : n / 2 ^ (u + 1) < 2 ^ 53 := by
      rw [Nat.div_lt_iff_lt_mul (by positivity), ← pow_add]
      refine (Nat.lt_pow_succ_log_self Nat.one_lt_two n).trans_le ?_
      exact Nat.pow_le_pow_right Nat.two_pos (by omega)
    have hfloor : ⌊(n : ℚ) / 2 ^ (u + 1)⌋ = ((n / 2 ^ (u + 1) : ℕ) : ℤ) := by
      have hdiv := Rat.floor_natCast_div_natCast n (2 ^ (u + 1))
      push_cast at hdiv ⊢
      exact hdiv
    obtain ⟨hge, hle⟩ := floor_le_roundEven ((n : ℚ) / 2 ^ (u + 1))
    rw [hfloor] at hge hle
    obtain ⟨m, hm⟩ := Int.eq_ofNat_of_zero_le ((Int.natCast_nonneg _).trans hge)
    rw [hm] at hge hle
    have hvalue : double (n : ℚ) = if m * 2 ^ (u + 1) < 2 ^ 1024
        then some ((m * 2 ^ (u + 1) : ℕ) : ℚ) else none := by
      unfold double
      simp only [hplace, zpow_natCast, hm]
      have hiff : ((m : ℤ) : ℚ) * 2 ^ (u + 1) < 2 ^ 1024 ↔ m * 2 ^ (u + 1) < 2 ^ 1024 := by
        norm_cast
      rw [if_congr hiff rfl rfl]
      push_cast
      rfl
    rw [hsub]
    refine ⟨m, hvalue, fun hdvd => ?_, by omega, by omega⟩
    obtain ⟨k, hk⟩ := hdvd
    have hquot : (n : ℚ) / 2 ^ (u + 1) = ((k : ℤ) : ℚ) := by
      rw [hk]
      push_cast
      rw [mul_div_cancel_left₀ _ (by positivity)]
    rw [hquot, roundEven_int] at hm
    rw [← Int.natCast_inj.mp hm, hk, mul_comm]

def IsDouble (n : ℕ) : Prop := double (n : ℚ) = some (n : ℚ)

theorem isDouble_mul {m u : ℕ} (hm : m ≤ 2 ^ 53) (hlt : m * 2 ^ u < 2 ^ 1024) :
    IsDouble (m * 2 ^ u) := by
  rcases Nat.lt_or_eq_of_le hm with hm | rfl
  · exact double_exact hm hlt
  · rw [← pow_add] at hlt ⊢
    exact double_two_pow ((Nat.pow_lt_pow_iff_right Nat.one_lt_two).mp hlt)

theorem isDouble_of_double {n : ℕ} {x : ℚ} (h : double (n : ℚ) = some x) :
    ∃ k : ℕ, x = k ∧ IsDouble k := by
  obtain ⟨m, hm, -, hle, -⟩ := double_natCast n
  rw [hm] at h
  split_ifs at h with hlt
  exact ⟨_, (Option.some.inj h).symm, isDouble_mul hle hlt⟩

namespace IsDouble

variable {n : ℕ}

theorem zero : IsDouble 0 := double_exact (m := 0) (a := 0) (by norm_num) (by norm_num)

theorem eq_mul (h : IsDouble n) : ∃ m u, n = m * 2 ^ u ∧ m ≤ 2 ^ 53 ∧ n < 2 ^ 1024 := by
  obtain ⟨m, hm, -, hle, -⟩ := double_natCast n
  rw [h] at hm
  split_ifs at hm with hlt
  have hn : n = m * 2 ^ (Nat.log 2 n - 52) := by exact_mod_cast Option.some.inj hm
  exact ⟨m, _, hn, hle, hn ▸ hlt⟩

theorem half (h : IsDouble n) : IsDouble (n / 2) := by
  obtain ⟨m, u, hn, hm, hlt⟩ := h.eq_mul
  cases u with
  | zero =>
      rw [pow_zero, mul_one] at hn
      have hexact := isDouble_mul (m := n / 2) (u := 0) (by omega) (by omega)
      rwa [pow_zero, mul_one] at hexact
  | succ u =>
      have hhalf : n / 2 = m * 2 ^ u := by
        rw [hn, pow_succ, ← mul_assoc, Nat.mul_div_cancel _ Nat.two_pos]
      rw [hhalf]
      exact isDouble_mul hm (by omega)

theorem narrow (h : IsDouble n) : Narrow n.bitIndices := by
  obtain ⟨m, u, hn, hm, hlt⟩ := h.eq_mul
  have hbelow (i : ℕ) (hi : i ∈ n.bitIndices) : i < 1024 := by
    have hle := Nat.two_pow_le_of_mem_bitIndices hi
    exact (Nat.pow_lt_pow_iff_right Nat.one_lt_two).mp (hle.trans_lt hlt)
  intro i hi
  refine ⟨hbelow i hi, fun j hj => ?_⟩
  rcases Nat.lt_or_eq_of_le hm with hm | rfl
  · rw [Nat.mem_bitIndices, hn, Nat.testBit_mul_two_pow, Bool.and_eq_true,
      decide_eq_true_eq] at hi hj
    by_contra hge
    have hpow : 2 ^ 53 ≤ 2 ^ (i - u) := Nat.pow_le_pow_right Nat.two_pos (by omega)
    rw [Nat.testBit_lt_two_pow (hm.trans_le hpow)] at hi
    exact Bool.false_ne_true hi.2
  · rw [hn, ← pow_add, Nat.bitIndices_two_pow, List.mem_singleton] at hi hj
    omega

end IsDouble

end JyQipai.Lib
