import Mathlib

/-!
# Rounded shares

A number format is given by the rounding of exact results.  Rounding is
monotone and keeps integers, as the doubles do for the amounts they represent
exactly.  The shares that a program computes with a rounded quotient and
`ceil` then stay between zero and the amount shared out.
-/

namespace JyQipai.Lib

structure NumFormat where
  rnd : ℚ → ℚ
  mono : Monotone rnd
  int : ∀ n : ℤ, rnd n = n

namespace NumFormat

def exact : NumFormat := ⟨id, monotone_id, fun _ => rfl⟩

variable (F : NumFormat)

def div (x y : ℚ) : ℚ := F.rnd (x / y)

def mul (x y : ℚ) : ℚ := F.rnd (x * y)

def sub (x y : ℚ) : ℚ := F.rnd (x - y)

variable {F}

theorem rnd_nonneg {x : ℚ} (h : 0 ≤ x) : 0 ≤ F.rnd x := by
  have h0 : F.rnd 0 = 0 := by exact_mod_cast F.int 0
  rw [← h0]
  exact F.mono h

theorem rnd_le_int {x : ℚ} {n : ℤ} (h : x ≤ n) : F.rnd x ≤ n := by
  rw [← F.int n]
  exact F.mono h

theorem ceil_rnd_nonneg {x : ℚ} (h : 0 ≤ x) : 0 ≤ ⌈F.rnd x⌉ :=
  Int.ceil_nonneg (rnd_nonneg h)

theorem ceil_rnd_le {x : ℚ} {n : ℤ} (h : x ≤ n) : ⌈F.rnd x⌉ ≤ n :=
  Int.ceil_le.mpr (rnd_le_int h)

theorem div_nonneg {x y : ℚ} (hx : 0 ≤ x) (hy : 0 ≤ y) : 0 ≤ F.div x y :=
  rnd_nonneg (by positivity)

theorem div_le_one {x y : ℚ} (hy : 0 ≤ y) (h : x ≤ y) : F.div x y ≤ 1 := by
  have hle : x / y ≤ ((1 : ℤ) : ℚ) := by
    rw [Int.cast_one]
    exact div_le_one_of_le₀ h hy
  simpa [div] using F.rnd_le_int hle

theorem ceil_share {n : ℤ} {x y : ℚ} (hn : 0 ≤ n) (hx : 0 ≤ x) (h : x ≤ y) :
    0 ≤ ⌈F.mul n (F.div x y)⌉ ∧ ⌈F.mul n (F.div x y)⌉ ≤ n := by
  have hn' : (0 : ℚ) ≤ n := by exact_mod_cast hn
  have hy : 0 ≤ y := hx.trans h
  refine ⟨ceil_rnd_nonneg (mul_nonneg hn' (div_nonneg hx hy)), ceil_rnd_le ?_⟩
  exact mul_le_of_le_one_right hn' (div_le_one hy h)

theorem ceil_half {n : ℤ} (hn : 0 ≤ n) :
    0 ≤ ⌈F.div n 2⌉ ∧ ⌈F.div n 2⌉ ≤ n := by
  have hn' : (0 : ℚ) ≤ n := by exact_mod_cast hn
  refine ⟨ceil_rnd_nonneg (by positivity), ceil_rnd_le ?_⟩
  exact div_le_self hn' (by norm_num)

end NumFormat

end JyQipai.Lib
