import JyQipai.Lib.Double
import JyQipai.Common.Utf8

/-!
# The bits of a number

`bit_or`, `bit_xor` and `bit_and` read the binary digits of two numbers from the lowest on.
Their division makes doubles of integers, so an integer loses its last places if it has too
many of them.
-/

namespace JyQipai.Basefunc

inductive Number where
  | int (n : BitVec 64)
  | float (x : ℤ)
  | inf
  | nan
  deriving DecidableEq

def rounded (n : ℤ) : ℤ := n.sign * ⌊(Lib.double n.natAbs).getD 0⌋

namespace Number

/-- `a % 2`; infinity leaves no number. -/
def bit : Number → Option ℤ
  | int n => some (n.toInt % 2)
  | float x => some (x % 2)
  | inf => none
  | nan => none

def half : Number → Number
  | int n => float (rounded (n.toInt - n.toInt % 2) / 2)
  | float x => float ((x - x % 2) / 2)
  | inf => nan
  | nan => nan

def positive : Number → Bool
  | int n => 0 < n.toInt
  | float x => 0 < x
  | inf => true
  | nan => false

def sumPositive : Number → Number → Bool
  | nan, _ => false
  | _, nan => false
  | inf, _ => true
  | _, inf => true
  | int a, int b => 0 < (a + b).toInt
  | int a, float y => 0 < rounded a.toInt + y
  | float x, int b => 0 < x + rounded b.toInt
  | float x, float y => 0 < x + y

def width : Number → ℕ
  | int _ => 64
  | float x => x.natAbs.log2 + 1
  | _ => 1

def place (n : ℕ) : Number := if n - 1 < 1024 then float (2 ^ (n - 1)) else inf

end Number

/-- The loop of the three functions: while `goes`, the place `p` is added where the digits of
`a` and `b` have such a sum. -/
def bitLoop (goes : Number → Number → Bool) (sets : ℤ → Bool) :
    ℕ → Number → Number → BitVec 64 → BitVec 64 → Outcome (BitVec 64)
  | 0, _, _, _, _ => .more
  | turns + 1, a, b, p, c =>
      if goes a b then
        let sum := a.bit.bind fun ra => b.bit.map fun rb => ra + rb
        bitLoop goes sets turns a.half b.half (p * 2) (if sum.any sets then c + p else c)
      else .value c

def bitTurns (a b : Number) : ℕ := a.width + b.width + 1

def bitOr (a b : Number) : Outcome (BitVec 64) :=
  bitLoop Number.sumPositive (fun sum => 0 < sum) (bitTurns a b) a b 1 0

def bitXor (a b : Number) : Outcome (BitVec 64) :=
  bitLoop Number.sumPositive (fun sum => sum = 1) (bitTurns a b) a b 1 0

def bitAnd (a b : Number) : Outcome (BitVec 64) :=
  bitLoop (fun a b => a.positive && b.positive) (fun sum => 1 < sum) (bitTurns a b) a b 1 0

def bitGetPlaceValue (number : Number) (n : ℕ) : Outcome ℤ :=
  (bitAnd number (.place n)).map fun c => if 0 < c.toInt then 1 else 0

def bitSetPlaceValue (number : Number) (n : ℕ) (v : ℤ) : Outcome Number :=
  if v = 0 then .error else (bitOr number (.place n)).map .int

/-! ## What is claimed of them -/

namespace Number

def IsWhole : Number → Prop
  | int n => 0 ≤ n.toInt
  | float x => 0 ≤ x
  | _ => False

def value : Number → ℕ
  | int n => n.toNat
  | float x => x.toNat
  | _ => 0

end Number

def cut (n : ℕ) : ℕ := n % 2 + (rounded (n - n % 2 : ℕ)).toNat

def Exact (n : ℕ) : Prop := rounded (n - n % 2 : ℕ) = (n - n % 2 : ℕ)

namespace Number

def read : Number → ℕ
  | int n => cut n.toNat
  | float x => x.toNat
  | _ => 0

def Kept : Number → Prop
  | int n => Exact n.toNat
  | _ => True

end Number

def Outcome.bind {α β : Type} (r : Outcome α) (f : α → Outcome β) : Outcome β :=
  match r with
  | .value v => f v
  | .error => .error
  | .more => .more

def WrittenBack (x : Number) (i : ℕ) (v : ℤ) : Prop := ∀ j, 1 ≤ j →
  ((bitSetPlaceValue x i v).bind fun y => bitGetPlaceValue y j) =
    if j = i then .value v else bitGetPlaceValue x j

structure Agree (a b : Number) : Prop where
  or : (bitOr a b).map BitVec.toInt = .value (a.value ||| b.value : ℕ)
  xor : (bitXor a b).map BitVec.toInt = .value (a.value ^^^ b.value : ℕ)
  and : (bitAnd a b).map BitVec.toInt = .value (a.value &&& b.value : ℕ)

/-! ## Integers and doubles -/

variable {n i j k : ℕ}

theorem rounded_natCast (hn : n < 2 ^ 1023) :
    ∃ m : ℕ, rounded n = (m * 2 ^ (Nat.log 2 n - 52) : ℕ) ∧
      (2 ^ (Nat.log 2 n - 52) ∣ n → m * 2 ^ (Nat.log 2 n - 52) = n) ∧ m ≤ 2 ^ 53 ∧
      (n ≠ 0 → m ≠ 0) := by
  obtain ⟨m, hm, hexact, hle, hpos⟩ := Lib.double_natCast n
  have hlog : Nat.log 2 n < 1023 := Nat.log_lt_of_lt_pow' (by omega) hn
  have hmax : m * 2 ^ (Nat.log 2 n - 52) < 2 ^ 1024 := by
    calc m * 2 ^ (Nat.log 2 n - 52) ≤ 2 ^ 53 * 2 ^ (Nat.log 2 n - 52) := Nat.mul_le_mul_right _ hle
      _ = 2 ^ (53 + (Nat.log 2 n - 52)) := (pow_add ..).symm
      _ < 2 ^ 1024 := Nat.pow_lt_pow_right Nat.one_lt_two (by omega)
  rw [if_pos hmax] at hm
  by_cases hzero : n = 0
  · refine ⟨0, ?_, fun _ => ?_, Nat.zero_le _, fun h => absurd hzero h⟩
    · rw [hzero, zero_mul, rounded, Nat.cast_zero, Int.sign_zero, zero_mul]
    · rw [zero_mul, hzero]
  · refine ⟨m, ?_, hexact, hle, hpos⟩
    have hsign : (n : ℤ).sign = 1 := Int.sign_eq_one_of_pos (by omega)
    rw [rounded, Int.natAbs_natCast, hm, Option.getD_some, hsign, one_mul]
    exact Int.floor_natCast _

theorem testBit_sub_mod (hj : 0 < j) : (n - n % 2).testBit j = n.testBit j := by
  obtain ⟨j, rfl⟩ := Nat.exists_eq_add_of_lt hj
  rw [Nat.zero_add, Nat.testBit_add_one, Nat.testBit_add_one]
  congr 1
  omega

theorem cut_spec (hn : n < 2 ^ 63) :
    ∃ r : ℕ, rounded (n - n % 2 : ℕ) = r ∧ r % 2 = 0 ∧ cut n = n % 2 + r ∧ r ≤ 2 ^ 63 ∧
      (r = 0 → n - n % 2 = 0) ∧ (Exact n ↔ r = n - n % 2) := by
  have hbig : n - n % 2 < 2 ^ 1023 := lt_of_le_of_lt (Nat.sub_le ..) (hn.trans (by
    exact Nat.pow_lt_pow_right Nat.one_lt_two (by omega)))
  obtain ⟨m, hm, hexact, hle, hpos⟩ := rounded_natCast hbig
  refine ⟨_, hm, ?_, ?_, ?_, fun h => ?_, ?_⟩
  · by_cases hlog : Nat.log 2 (n - n % 2) - 52 = 0
    · rw [hlog] at hexact ⊢
      rw [hexact (one_dvd _)]
      omega
    · exact Nat.mod_eq_zero_of_dvd ((dvd_pow_self 2 hlog).mul_left m)
  · rw [cut, hm, Int.toNat_natCast]
  · have hlog : Nat.log 2 (n - n % 2) < 63 :=
      Nat.log_lt_of_lt_pow' (by omega) (lt_of_le_of_lt (Nat.sub_le ..) hn)
    calc m * 2 ^ (Nat.log 2 (n - n % 2) - 52) ≤ 2 ^ 53 * 2 ^ 10 :=
        Nat.mul_le_mul hle (Nat.pow_le_pow_right Nat.two_pos (by omega))
      _ = 2 ^ 63 := by norm_num
  · by_contra hne
    exact absurd h (Nat.mul_ne_zero (hpos hne) (by positivity))
  · rw [Exact, hm]
    exact Int.natCast_inj

theorem cut_lost (hn : n < 2 ^ 63) (hlost : ¬Exact n) :
    ∃ k, 0 < k ∧ n.testBit k = true ∧ (∀ j, 0 < j → j ≤ k → (cut n).testBit j = false) ∧
      ∀ j, 0 < j → j < k → n.testBit j = false := by
  obtain ⟨r, hr, heven, hcut, -, -, hexact⟩ := cut_spec hn
  have hbig : n - n % 2 < 2 ^ 1023 := lt_of_le_of_lt (Nat.sub_le ..) (hn.trans (by
    exact Nat.pow_lt_pow_right Nat.one_lt_two (by omega)))
  obtain ⟨m, hm, hwhole, -, -⟩ := rounded_natCast hbig
  have hrm : r = m * 2 ^ (Nat.log 2 (n - n % 2) - 52) := by
    rw [hr] at hm
    exact Int.natCast_inj.mp hm
  have hndvd : ¬2 ^ (Nat.log 2 (n - n % 2) - 52) ∣ n - n % 2 := by
    intro hdvd
    exact hlost (hexact.mpr (hrm.trans (hwhole hdvd)))
  have hne : n - n % 2 ≠ 0 := by
    intro hzero
    rw [hzero] at hndvd
    exact hndvd (dvd_zero _)
  obtain ⟨k, q, hodd, hq⟩ := Nat.exists_eq_two_pow_mul_odd hne
  have hk : k < Nat.log 2 (n - n % 2) - 52 := by
    by_contra hle
    refine hndvd ?_
    nth_rewrite 2 [hq]
    exact (pow_dvd_pow 2 (Nat.not_lt.mp hle)).mul_right q
  have hkpos : 0 < k := by
    by_contra hzero
    rw [Nat.eq_zero_of_not_pos hzero, pow_zero, one_mul] at hq
    have hmod := Nat.odd_iff.mp hodd
    omega
  refine ⟨k, hkpos, ?_, fun j hj hle => ?_, fun j hj hlt => ?_⟩
  · rw [← testBit_sub_mod hkpos, hq, Nat.testBit_two_pow_mul, Nat.sub_self, Nat.testBit_zero,
      Nat.odd_iff.mp hodd]
    simp
  · have hbit : (cut n).testBit j = r.testBit j := by
      rw [← testBit_sub_mod hj, hcut]
      congr 1
      omega
    rw [hbit, hrm, Nat.testBit_mul_two_pow]
    simp only [Bool.and_eq_false_iff, decide_eq_false_iff_not]
    omega
  · rw [← testBit_sub_mod hj, hq, Nat.testBit_two_pow_mul]
    simp only [Bool.and_eq_false_iff, decide_eq_false_iff_not]
    omega

section Loop

variable {goes : Number → Number → Bool} {sets : ℤ → Bool} {f : Bool → Bool → Bool}
  {a b : Number} {x y turns : ℕ} {p c : BitVec 64}

theorem bitwise_step (hf : f false false = false) (x y : ℕ) : Nat.bitwise f x y =
    2 * Nat.bitwise f (x / 2) (y / 2) + (f (x.testBit 0) (y.testBit 0)).toNat := by
  have hdiv := Nat.bitwise_div_two_pow hf (x := x) (y := y) (n := 1)
  have hbit := Nat.testBit_bitwise hf x y 0
  rw [pow_one] at hdiv
  rw [Nat.testBit_zero] at hbit
  rw [← hdiv, ← hbit]
  rcases Nat.mod_two_eq_zero_or_one (Nat.bitwise f x y) with hmod | hmod
  · rw [hmod]
    simp
    omega
  · rw [hmod]
    simp
    omega

theorem bitLoop_float (hf : f false false = false)
    (hsets : ∀ x y : Bool, sets ((x.toNat : ℤ) + y.toNat) = f x y)
    (hgoes : ∀ x y : ℕ, goes (.float x) (.float y) = false → Nat.bitwise f x y = 0)
    (hzero : goes (.float 0) (.float 0) = false) (hx : x < 2 ^ turns) (hy : y < 2 ^ turns) :
    bitLoop goes sets (turns + 1) (.float x) (.float y) p c =
      .value (c + p * BitVec.ofNat 64 (Nat.bitwise f x y)) := by
  induction turns generalizing x y p c with
  | zero =>
      obtain rfl : x = 0 := by omega
      obtain rfl : y = 0 := by omega
      rw [bitLoop, Nat.cast_zero, hzero, if_neg Bool.false_ne_true,
        hgoes 0 0 (by rw [Nat.cast_zero, hzero])]
      simp
  | succ turns ih =>
      rw [bitLoop]
      by_cases hg : goes (.float x) (.float y) = true
      · have hhalf (x : ℕ) : (Number.float x).half = .float (x / 2 : ℕ) := by
          rw [Number.half]
          congr 1
          omega
        have hsum : (((Number.float x).bit.bind fun ra =>
            (Number.float y).bit.map fun rb => ra + rb).any sets) =
              f (x.testBit 0) (y.testBit 0) := by
          rw [← hsets, Nat.testBit_zero, Nat.testBit_zero]
          change sets ((x : ℤ) % 2 + (y : ℤ) % 2) = _
          congr 2
          · rcases Nat.mod_two_eq_zero_or_one x with hmod | hmod <;> rw [hmod] <;> simp <;> omega
          · rcases Nat.mod_two_eq_zero_or_one y with hmod | hmod <;> rw [hmod] <;> simp <;> omega
        rw [if_pos hg, hhalf, hhalf]
        dsimp only
        rw [hsum, ih (by omega) (by omega), bitwise_step hf x y]
        congr 1
        rw [← BitVec.natCast_eq_ofNat, ← BitVec.natCast_eq_ofNat]
        cases f (x.testBit 0) (y.testBit 0) with
        | false =>
            simp only [Bool.false_eq_true, if_false, Bool.toNat_false, Nat.add_zero, Nat.cast_mul,
              Nat.cast_ofNat]
            ring
        | true =>
            simp only [if_true, Bool.toNat_true, Nat.cast_add, Nat.cast_mul, Nat.cast_ofNat,
              Nat.cast_one]
            ring
      · rw [if_neg hg, hgoes x y (Bool.eq_false_iff.mpr hg)]
        simp

/-! ### Non-negative integers -/

theorem toInt_whole {n : BitVec 64} (h : 0 ≤ n.toInt) : n.toInt = n.toNat ∧ n.toNat < 2 ^ 63 := by
  have hcond := BitVec.toInt_eq_toNat_cond n
  have hlt := n.isLt
  split_ifs at hcond <;> omega

theorem cut_eq_zero (hn : n < 2 ^ 63) : cut n = 0 ↔ n = 0 := by
  obtain ⟨r, -, -, hcut, -, hzero, -⟩ := cut_spec hn
  constructor
  · intro h
    have hr := hzero (by omega)
    omega
  · rintro rfl
    simp [cut, rounded]

theorem rounded_pos (hn : n < 2 ^ 63) : 0 ≤ rounded n ∧ (0 < rounded n ↔ 0 < n) := by
  have hbig : n < 2 ^ 1023 := hn.trans (Nat.pow_lt_pow_right Nat.one_lt_two (by omega))
  obtain ⟨m, hm, hwhole, -, hpos⟩ := rounded_natCast hbig
  rw [hm]
  refine ⟨Int.natCast_nonneg _, ?_⟩
  rw [Int.natCast_pos]
  constructor
  · intro h
    by_contra hzero
    rw [Nat.eq_zero_of_not_pos hzero] at h hwhole
    have := hwhole (dvd_zero _)
    omega
  · intro h
    exact Nat.mul_pos (Nat.pos_of_ne_zero (hpos h.ne')) (by positivity)

theorem bit_read (ha : a.IsWhole) : a.bit = (Number.float a.read).bit := by
  cases a with
  | int n =>
      obtain ⟨hn, hlt⟩ := toInt_whole ha
      obtain ⟨r, -, heven, hcut, -⟩ := cut_spec hlt
      rw [Number.bit, Number.bit, Number.read, hn, hcut]
      congr 1
      omega
  | float x =>
      rw [Number.read, Int.toNat_of_nonneg ha]
  | inf => exact absurd ha id
  | nan => exact absurd ha id

theorem half_read (ha : a.IsWhole) : a.half = (Number.float a.read).half := by
  cases a with
  | int n =>
      obtain ⟨hn, hlt⟩ := toInt_whole ha
      obtain ⟨r, hr, heven, hcut, -⟩ := cut_spec hlt
      have hsub : (n.toNat : ℤ) - n.toNat % 2 = (n.toNat - n.toNat % 2 : ℕ) := by omega
      rw [Number.half, Number.half, Number.read, hn, hcut, hsub, hr]
      congr 1
      omega
  | float x =>
      rw [Number.read, Int.toNat_of_nonneg ha]
  | inf => exact absurd ha id
  | nan => exact absurd ha id

theorem read_lt (ha : a.IsWhole) : a.read < 2 ^ a.width := by
  cases a with
  | int n =>
      obtain ⟨hn, hlt⟩ := toInt_whole ha
      obtain ⟨r, -, -, hcut, hle, -⟩ := cut_spec hlt
      rw [Number.read, Number.width, hcut]
      omega
  | float x =>
      obtain ⟨x, rfl⟩ := Int.eq_ofNat_of_zero_le ha
      exact Nat.lt_log2_self
  | inf => exact absurd ha id
  | nan => exact absurd ha id

theorem positive_read (ha : a.IsWhole) : a.positive = (Number.float a.read).positive := by
  cases a with
  | int n =>
      obtain ⟨hn, hlt⟩ := toInt_whole ha
      have hzero := cut_eq_zero hlt
      rw [Number.positive, Number.positive, Number.read, hn]
      refine decide_eq_decide.mpr ?_
      omega
  | float x =>
      rw [Number.read, Int.toNat_of_nonneg ha]
  | inf => exact absurd ha id
  | nan => exact absurd ha id

def Number.Sums : Number → Number → Prop
  | int n, int m => n.toNat + m.toNat < 2 ^ 63
  | _, _ => True

theorem sumPositive_read (ha : a.IsWhole) (hb : b.IsWhole) (hsum : a.Sums b) :
    a.sumPositive b = (Number.float a.read).sumPositive (.float b.read) := by
  cases a with
  | int n =>
      obtain ⟨hn, hlt⟩ := toInt_whole ha
      have hzero := cut_eq_zero hlt
      cases b with
      | int m =>
          obtain ⟨hm, hlt'⟩ := toInt_whole hb
          have hzero' := cut_eq_zero hlt'
          have hadd := BitVec.toInt_eq_toNat_cond (n + m)
          have hsum' : n.toNat + m.toNat < 2 ^ 63 := hsum
          rw [BitVec.toNat_add, Nat.mod_eq_of_lt (by omega), if_pos (by omega)] at hadd
          refine decide_eq_decide.mpr ?_
          rw [hadd, Number.read, Number.read]
          omega
      | float y =>
          have hy : 0 ≤ y := hb
          have hpos := rounded_pos hlt
          refine decide_eq_decide.mpr ?_
          rw [hn, Number.read, Number.read, Int.toNat_of_nonneg hy]
          omega
      | inf => exact absurd hb id
      | nan => exact absurd hb id
  | float x =>
      have hx : 0 ≤ x := ha
      cases b with
      | int m =>
          obtain ⟨hm, hlt⟩ := toInt_whole hb
          have hzero := cut_eq_zero hlt
          have hpos := rounded_pos hlt
          refine decide_eq_decide.mpr ?_
          rw [hm, Number.read, Number.read, Int.toNat_of_nonneg hx]
          omega
      | float y =>
          rw [Number.read, Number.read, Int.toNat_of_nonneg hx, Int.toNat_of_nonneg hb]
      | inf => exact absurd hb id
      | nan => exact absurd hb id
  | inf => exact absurd ha id
  | nan => exact absurd ha id

theorem bitLoop_read (ha : a.IsWhole) (hb : b.IsWhole)
    (hgoes : goes a b = goes (.float a.read) (.float b.read)) :
    bitLoop goes sets (turns + 1) a b p c =
      bitLoop goes sets (turns + 1) (.float a.read) (.float b.read) p c := by
  rw [bitLoop, bitLoop, hgoes, bit_read ha, bit_read hb, half_read ha, half_read hb]

theorem bitLoop_spec (hf : f false false = false)
    (hsets : ∀ x y : Bool, sets ((x.toNat : ℤ) + y.toNat) = f x y)
    (hgoes : ∀ x y : ℕ, goes (.float x) (.float y) = false → Nat.bitwise f x y = 0)
    (hzero : goes (.float 0) (.float 0) = false) (ha : a.IsWhole) (hb : b.IsWhole)
    (hread : goes a b = goes (.float a.read) (.float b.read)) :
    bitLoop goes sets (bitTurns a b) a b 1 0 =
      .value (BitVec.ofNat 64 (Nat.bitwise f a.read b.read)) := by
  have hwiden (i j : ℕ) : 2 ^ i ≤ 2 ^ (i + j) := Nat.pow_le_pow_right Nat.two_pos (by omega)
  rw [bitTurns, bitLoop_read ha hb hread, bitLoop_float hf hsets hgoes hzero]
  · rw [zero_add, one_mul]
  · exact (read_lt ha).trans_le (hwiden _ _)
  · rw [Nat.add_comm]
    exact (read_lt hb).trans_le (hwiden _ _)

theorem bitAnd_spec (ha : a.IsWhole) (hb : b.IsWhole) :
    bitAnd a b = .value (BitVec.ofNat 64 (a.read &&& b.read)) := by
  refine bitLoop_spec (f := and) rfl (by decide) (fun x y h => ?_) rfl ha hb ?_
  · have hzero : x = 0 ∨ y = 0 := by
      simp only [Number.positive, Bool.and_eq_false_iff, decide_eq_false_iff_not] at h
      omega
    rcases hzero with rfl | rfl
    · exact Nat.zero_and y
    · exact Nat.and_zero x
  · rw [positive_read ha, positive_read hb]

theorem eq_zero_of_sum {x y : ℕ} (h : (Number.float x).sumPositive (.float y) = false) :
    x = 0 ∧ y = 0 := by
  simp only [Number.sumPositive, decide_eq_false_iff_not] at h
  omega

theorem bitOr_spec (ha : a.IsWhole) (hb : b.IsWhole) (hsum : a.Sums b) :
    bitOr a b = .value (BitVec.ofNat 64 (a.read ||| b.read)) := by
  refine bitLoop_spec (f := or) rfl (by decide) (fun x y h => ?_) rfl ha hb
    (sumPositive_read ha hb hsum)
  obtain ⟨rfl, rfl⟩ := eq_zero_of_sum h
  simp

theorem bitXor_spec (ha : a.IsWhole) (hb : b.IsWhole) (hsum : a.Sums b) :
    bitXor a b = .value (BitVec.ofNat 64 (a.read ^^^ b.read)) := by
  refine bitLoop_spec (f := bne) rfl (by decide) (fun x y h => ?_) rfl ha hb
    (sumPositive_read ha hb hsum)
  obtain ⟨rfl, rfl⟩ := eq_zero_of_sum h
  simp

/-! ### Infinity -/

theorem bitAnd_inf (a : Number) : bitAnd a .inf = .value 0 := by
  have hturns : bitTurns a .inf = a.width + 1 + 1 := rfl
  rw [bitAnd, hturns, bitLoop]
  split
  · have hsum : (a.bit.bind fun ra => Number.inf.bit.map fun rb => ra + rb).any
        (fun sum => decide (1 < sum)) = false := by cases a.bit <;> rfl
    dsimp only
    rw [bitLoop, hsum, if_neg Bool.false_ne_true, if_neg]
    simp [Number.half, Number.positive]
  · rfl

theorem bitOr_inf (a : Number) : bitOr a .inf = .value 0 := by
  have hturns : bitTurns a .inf = a.width + 1 + 1 := rfl
  rw [bitOr, hturns, bitLoop]
  split
  · have hsum : (a.bit.bind fun ra => Number.inf.bit.map fun rb => ra + rb).any
        (fun sum => decide (0 < sum)) = false := by cases a.bit <;> rfl
    have hnan (b : Number) : b.sumPositive .nan = false := by cases b <;> rfl
    dsimp only
    rw [bitLoop, hsum, if_neg Bool.false_ne_true, Number.half, hnan, if_neg Bool.false_ne_true]
  · rfl

end Loop

/-! ## Reading and writing a place -/

variable {x : Number} {v : ℤ}

theorem toInt_two_pow : 0 < (BitVec.ofNat 64 (2 ^ k)).toInt ↔ k < 63 := by
  rw [BitVec.toInt_eq_toNat_cond, BitVec.toNat_ofNat]
  by_cases hk : k < 63
  · have hlt : 2 ^ k < 2 ^ 63 := Nat.pow_lt_pow_right Nat.one_lt_two hk
    have hpos : 0 < 2 ^ k := Nat.two_pow_pos k
    rw [Nat.mod_eq_of_lt (by omega), if_pos (by omega)]
    simp [hk]
  · refine iff_of_false ?_ hk
    by_cases hk' : k = 63
    · rw [hk']
      decide
    · have hzero : 2 ^ k % 2 ^ 64 = 0 :=
        Nat.mod_eq_zero_of_dvd (pow_dvd_pow 2 (by omega))
      rw [hzero]
      decide

theorem ofNat_whole (y : ℕ) :
    (0 ≤ (BitVec.ofNat 64 y).toInt ↔ y.testBit 63 = false) ∧
      (y.testBit 63 = false → (BitVec.ofNat 64 y).toNat = y % 2 ^ 63) := by
  rw [BitVec.toInt_eq_toNat_cond, BitVec.toNat_ofNat, Nat.testBit_eq_decide_div_mod_eq,
    decide_eq_false_iff_not]
  constructor
  · split_ifs <;> omega
  · omega

theorem read_place (hi : i - 1 < 1024) :
    (Number.place i).IsWhole ∧ (Number.place i).read = 2 ^ (i - 1) := by
  rw [Number.place, if_pos hi]
  have hcast : (2 : ℤ) ^ (i - 1) = (2 ^ (i - 1) : ℕ) := by push_cast; rfl
  rw [hcast]
  exact ⟨Int.natCast_nonneg _, Int.toNat_natCast _⟩

theorem bitGetPlaceValue_spec (hx : x.IsWhole) (hj : 1 ≤ j) : bitGetPlaceValue x j =
    .value (if j ≤ 63 ∧ x.read.testBit (j - 1) = true then 1 else 0) := by
  rw [bitGetPlaceValue]
  by_cases hbig : j - 1 < 1024
  · obtain ⟨hplace, hread⟩ := read_place hbig
    rw [bitAnd_spec hx hplace, hread, Nat.and_two_pow, Outcome.map]
    congr 1
    cases hbit : x.read.testBit (j - 1) with
    | false =>
        rw [Bool.toNat_false, zero_mul, if_neg, if_neg]
        · rintro ⟨-, h⟩
          cases h
        · decide
    | true =>
        rw [Bool.toNat_true, one_mul]
        refine if_congr ?_ rfl rfl
        rw [toInt_two_pow]
        constructor
        · exact fun h => ⟨by omega, rfl⟩
        · exact fun h => by omega
  · rw [Number.place, if_neg hbig, bitAnd_inf x, if_neg (by omega)]
    rfl

theorem bitGetPlaceValue_int (n : BitVec 64) (hj : 1 ≤ j) : bitGetPlaceValue (.int n) j =
    .value (if 0 ≤ n.toInt ∧ j ≤ 63 ∧ (cut n.toNat).testBit (j - 1) = true then 1 else 0) := by
  by_cases hn : 0 ≤ n.toInt
  · rw [bitGetPlaceValue_spec (x := .int n) hn hj]
    simp only [hn, true_and]
    rfl
  · have hand : bitAnd (.int n) (.place j) = .value 0 := by
      rw [bitAnd, bitTurns, bitLoop, Number.positive, decide_eq_false (by omega), Bool.false_and,
        if_neg Bool.false_ne_true]
    rw [bitGetPlaceValue, hand, if_neg fun h => hn h.1]
    rfl


theorem cut_exact (hn : n < 2 ^ 63) (h : Exact n) : cut n = n := by
  obtain ⟨r, -, -, hcut, -, -, hexact⟩ := cut_spec hn
  have hr := hexact.mp h
  omega

theorem bitSetPlaceValue_spec (hx : x.IsWhole) (hi : i ≤ 63) (hv : v ≠ 0) :
    bitSetPlaceValue x i v =
      .value (.int (BitVec.ofNat 64 (x.read ||| 2 ^ (i - 1)))) := by
  obtain ⟨hplace, hread⟩ := read_place (i := i) (by omega)
  have hsum : x.Sums (.place i) := by
    rw [Number.place, if_pos (by omega)]
    cases x <;> trivial
  rw [bitSetPlaceValue, if_neg hv, bitOr_spec hx hplace hsum, hread]
  rfl

theorem bitSetPlaceValue_int (hx : x.IsWhole) (i : ℕ) (hv : v ≠ 0) :
    ∃ c, bitSetPlaceValue x i v = .value (.int c) := by
  by_cases hbig : i - 1 < 1024
  · obtain ⟨hplace, -⟩ := read_place hbig
    have hsum : x.Sums (.place i) := by
      rw [Number.place, if_pos hbig]
      cases x <;> trivial
    rw [bitSetPlaceValue, if_neg hv, bitOr_spec hx hplace hsum]
    exact ⟨_, rfl⟩
  · rw [bitSetPlaceValue, if_neg hv, Number.place, if_neg hbig, bitOr_inf]
    exact ⟨_, rfl⟩

theorem testBit_written (y i k : ℕ) :
    ((y ||| 2 ^ (i - 1)) % 2 ^ 63).testBit k =
      (decide (k < 63) && (y.testBit k || decide (i - 1 = k))) := by
  rw [Nat.testBit_mod_two_pow, Nat.testBit_or, Nat.testBit_two_pow]

theorem writtenBack_iff (hx : x.IsWhole) (hi : 1 ≤ i) : WrittenBack x i v ↔
    v = 1 ∧ i ≤ 63 ∧ x.read.testBit 63 = false ∧ Exact ((x.read ||| 2 ^ (i - 1)) % 2 ^ 63) := by
  constructor
  · intro h
    have hat := h i hi
    rw [if_pos rfl] at hat
    have hv : v ≠ 0 := by
      rintro rfl
      rw [bitSetPlaceValue, if_pos rfl] at hat
      cases hat
    obtain ⟨c, hc⟩ := bitSetPlaceValue_int hx i hv
    have hget (j : ℕ) (hj : 1 ≤ j) :
        ((bitSetPlaceValue x i v).bind fun y => bitGetPlaceValue y j) = .value
          (if 0 ≤ c.toInt ∧ j ≤ 63 ∧ (cut c.toNat).testBit (j - 1) = true then 1 else 0) := by
      rw [hc]
      exact bitGetPlaceValue_int c hj
    rw [hget i hi] at hat
    have hcond : 0 ≤ c.toInt ∧ i ≤ 63 ∧ (cut c.toNat).testBit (i - 1) = true := by
      by_contra hnot
      rw [if_neg hnot] at hat
      exact hv (Outcome.value.inj hat).symm
    rw [if_pos hcond] at hat
    obtain rfl := Outcome.value.inj hat
    obtain ⟨hpos, hle, -⟩ := hcond
    rw [bitSetPlaceValue_spec hx hle hv] at hc
    obtain rfl := Number.int.inj (Outcome.value.inj hc)
    have hsign := (ofNat_whole _).1.mp hpos
    rw [(ofNat_whole _).2 hsign] at hget
    rw [Nat.testBit_or, Bool.or_eq_false_iff] at hsign
    refine ⟨rfl, hle, hsign.1, ?_⟩
    by_contra hlost
    obtain ⟨k, hk, hbit, hcut, -⟩ := cut_lost (Nat.mod_lt _ (by positivity)) hlost
    have hlaw := h (k + 1) (by omega)
    rw [hget (k + 1) (by omega), Nat.add_sub_cancel, hcut k hk le_rfl,
      if_neg fun hcond => Bool.false_ne_true hcond.2.2] at hlaw
    rw [testBit_written, Bool.and_eq_true, decide_eq_true_eq, Bool.or_eq_true,
      decide_eq_true_eq] at hbit
    by_cases hki : k + 1 = i
    · rw [if_pos hki] at hlaw
      cases hlaw
    · have hread : k + 1 ≤ 63 ∧ x.read.testBit (k + 1 - 1) = true :=
        ⟨by omega, hbit.2.resolve_right (by omega)⟩
      rw [if_neg hki, bitGetPlaceValue_spec hx (by omega), if_pos hread] at hlaw
      cases hlaw
  · rintro ⟨rfl, hle, hsign, hexact⟩ j hj
    have hsign' : (x.read ||| 2 ^ (i - 1)).testBit 63 = false := by
      rw [Nat.testBit_or, hsign, Nat.testBit_two_pow, decide_eq_false (by omega), Bool.or_false]
    obtain ⟨hwhole, hnat⟩ := ofNat_whole (x.read ||| 2 ^ (i - 1))
    rw [bitSetPlaceValue_spec hx hle one_ne_zero, Outcome.bind, bitGetPlaceValue_int _ hj,
      hnat hsign', cut_exact (Nat.mod_lt _ (by positivity)) hexact, testBit_written]
    by_cases hji : j = i
    · rw [if_pos hji, if_pos]
      refine ⟨hwhole.mpr hsign', by omega, ?_⟩
      rw [hji, decide_eq_true (by omega), decide_eq_true rfl, Bool.or_true, Bool.and_true]
    · rw [if_neg hji, bitGetPlaceValue_spec hx hj]
      congr 1
      refine if_congr ?_ rfl rfl
      have hne : ¬(i - 1 = j - 1) := by omega
      rw [decide_eq_false hne, Bool.or_false, Bool.and_eq_true, decide_eq_true_eq]
      constructor
      · exact fun h => ⟨h.2.1, h.2.2.2⟩
      · exact fun h => ⟨hwhole.mpr hsign', h.1, by omega, h.2⟩

section Operations

variable {a b : Number}

theorem toInt_ofNat_lt {y : ℕ} (hy : y < 2 ^ 63) : (BitVec.ofNat 64 y).toInt = y := by
  rw [BitVec.toInt_eq_toNat_cond, BitVec.toNat_ofNat]
  split_ifs <;> omega

theorem read_of_toInt {y z : ℕ} (h : (BitVec.ofNat 64 y).toInt = z) :
    z < 2 ^ 63 ∧ y % 2 ^ 63 = z := by
  obtain ⟨hwhole, hnat⟩ := ofNat_whole y
  have hpos : 0 ≤ (BitVec.ofNat 64 y).toInt := by omega
  have hmod := hnat (hwhole.mp hpos)
  have hint := (toInt_whole hpos).1
  omega

theorem Number.Kept.read_eq (h : a.Kept) (ha : a.IsWhole) : a.read = a.value := by
  cases a with
  | int n => exact cut_exact (toInt_whole ha).2 h
  | float x => rfl
  | inf => rfl
  | nan => rfl

theorem kept_or_lost (ha : a.IsWhole) (hlt : a.value < 2 ^ 63) :
    a.Kept ∨ ∃ k, 0 < k ∧ k < 63 ∧ a.value.testBit k = true ∧
      (∀ j, 0 < j → j ≤ k → a.read.testBit j = false) ∧
      ∀ j, 0 < j → j < k → a.value.testBit j = false := by
  cases a with
  | int n =>
      by_cases hkept : Exact n.toNat
      · exact .inl hkept
      · obtain ⟨k, hk, hbit, hread, hlow⟩ := cut_lost hlt hkept
        refine .inr ⟨k, hk, ?_, hbit, hread, hlow⟩
        by_contra hge
        have hpow : 2 ^ 63 ≤ 2 ^ k := Nat.pow_le_pow_right Nat.two_pos (Nat.not_lt.mp hge)
        rw [Nat.testBit_lt_two_pow (hlt.trans_le hpow)] at hbit
        cases hbit
  | float x => exact .inl trivial
  | inf => exact .inl trivial
  | nan => exact .inl trivial

theorem bitOr_overflow (ha : a.IsWhole) (hb : b.IsWhole) (hsum : ¬a.Sums b) :
    bitOr a b = .value 0 ∧ 2 ^ 63 ≤ a.value + b.value := by
  cases a with
  | int n =>
      cases b with
      | int m =>
          obtain ⟨hn, hlt⟩ := toInt_whole ha
          obtain ⟨hm, hlt'⟩ := toInt_whole hb
          have hge : 2 ^ 63 ≤ n.toNat + m.toNat := Nat.not_lt.mp hsum
          have hadd := BitVec.toInt_eq_toNat_cond (n + m)
          rw [BitVec.toNat_add, Nat.mod_eq_of_lt (by omega), if_neg (by omega)] at hadd
          refine ⟨?_, hge⟩
          rw [bitOr, bitTurns, bitLoop, Number.sumPositive, decide_eq_false (by omega),
            if_neg Bool.false_ne_true]
      | float y => exact absurd trivial hsum
      | inf => exact absurd hb id
      | nan => exact absurd hb id
  | float x => exact absurd (by cases b <;> trivial) hsum
  | inf => exact absurd ha id
  | nan => exact absurd ha id

theorem agree_iff (ha : a.IsWhole) (hb : b.IsWhole) : Agree a b ↔
    a.value < 2 ^ 63 ∧ b.value < 2 ^ 63 ∧ a.Sums b ∧ a.Kept ∧ b.Kept := by
  constructor
  · intro h
    have hsum : a.Sums b := by
      by_contra hsum
      obtain ⟨hor, hge⟩ := bitOr_overflow ha hb hsum
      have hzero := h.or
      rw [hor] at hzero
      have hcast : (0 : ℤ) = (a.value ||| b.value : ℕ) := Outcome.value.inj hzero
      have hle : a.value ≤ a.value ||| b.value := Nat.left_le_or
      have hle' : b.value ≤ a.value ||| b.value := Nat.right_le_or
      omega
    have hor := h.or
    rw [bitOr_spec ha hb hsum] at hor
    obtain ⟨hlt, hor⟩ := read_of_toInt (Outcome.value.inj hor)
    have hand := h.and
    rw [bitAnd_spec ha hb] at hand
    obtain ⟨-, hand⟩ := read_of_toInt (Outcome.value.inj hand)
    have hlta : a.value < 2 ^ 63 := lt_of_le_of_lt Nat.left_le_or hlt
    have hltb : b.value < 2 ^ 63 := lt_of_le_of_lt Nat.right_le_or hlt
    have hbits (k : ℕ) (hk : k < 63) :
        (a.read.testBit k || b.read.testBit k) = (a.value.testBit k || b.value.testBit k) ∧
        (a.read.testBit k && b.read.testBit k) = (a.value.testBit k && b.value.testBit k) := by
      have hork := congrArg (Nat.testBit · k) hor
      have handk := congrArg (Nat.testBit · k) hand
      simp only [Nat.testBit_mod_two_pow, hk, decide_true, Bool.true_and, Nat.testBit_or,
        Nat.testBit_and] at hork handk
      exact ⟨hork, handk⟩
    refine ⟨hlta, hltb, hsum, ?_⟩
    rcases kept_or_lost ha hlta with hkept | ⟨k, hk, hk63, hbit, hread, hlow⟩
    · refine ⟨hkept, (kept_or_lost hb hltb).resolve_right ?_⟩
      rintro ⟨k, hk, hk63, hbit, hread, -⟩
      have hka := hbits k hk63
      rw [hkept.read_eq ha, hread k hk le_rfl, hbit] at hka
      cases hval : a.value.testBit k <;> simp [hval] at hka
    · exfalso
      rcases kept_or_lost hb hltb with hkept | ⟨k', hk', hk63', hbit', hread', hlow'⟩
      · have hkb := hbits k hk63
        rw [hkept.read_eq hb, hread k hk le_rfl, hbit] at hkb
        cases hval : b.value.testBit k <;> simp [hval] at hkb
      · -- the lower one of the two lost digits is in neither number that is read
        rcases Nat.le_total k k' with hle | hle
        · have hkb := (hbits k hk63).1
          rw [hread k hk le_rfl, hread' k hk hle, hbit] at hkb
          cases hkb
        · have hkb := (hbits k' hk63').1
          rw [hread k' hk' hle, hread' k' hk' le_rfl, hbit', Bool.or_true] at hkb
          cases hkb
  · rintro ⟨hlt, hlt', hsum, hkept, hkept'⟩
    have hread := hkept.read_eq ha
    have hread' := hkept'.read_eq hb
    constructor
    · rw [bitOr_spec ha hb hsum, hread, hread', Outcome.map,
        toInt_ofNat_lt (Nat.or_lt_two_pow hlt hlt')]
    · rw [bitXor_spec ha hb hsum, hread, hread', Outcome.map,
        toInt_ofNat_lt (Nat.xor_lt_two_pow hlt hlt')]
    · rw [bitAnd_spec ha hb, hread, hread', Outcome.map,
        toInt_ofNat_lt (Nat.and_lt_two_pow _ hlt')]

end Operations

/-! ## Bits of any number -/

/-- The places of a number are read as they are written, and the operations agree with the digits,
just for numbers that are read whole and have no digit in the place of the sign. -/
theorem bits_iff (x y : Number) (hx : x.IsWhole) (hy : y.IsWhole) (i : ℕ) (hi : 1 ≤ i) (v : ℤ) :
    (WrittenBack x i v ↔ v = 1 ∧ i ≤ 63 ∧ x.read.testBit 63 = false ∧
        Exact ((x.read ||| 2 ^ (i - 1)) % 2 ^ 63)) ∧
      (Agree x y ↔ x.value < 2 ^ 63 ∧ y.value < 2 ^ 63 ∧ x.Sums y ∧ x.Kept ∧ y.Kept) :=
  ⟨writtenBack_iff hx hi, agree_iff hx hy⟩

/-- The second place of 5, and the digits of 5 and 3. -/
theorem bits_iff_five :
    (WrittenBack (.int 5) 2 1 ↔ (1 : ℤ) = 1 ∧ 2 ≤ 63 ∧ (Number.int 5).read.testBit 63 = false ∧
        Exact (((Number.int 5).read ||| 2 ^ (2 - 1)) % 2 ^ 63)) ∧
      (Agree (.int 5) (.float 3) ↔ (Number.int 5).value < 2 ^ 63 ∧
        (Number.float 3).value < 2 ^ 63 ∧ (Number.int 5).Sums (.float 3) ∧
        (Number.int 5).Kept ∧ (Number.float 3).Kept) :=
  have h5 : (0 : ℤ) ≤ (5 : BitVec 64).toInt := by decide
  have h3 : (0 : ℤ) ≤ 3 := by decide
  bits_iff (.int 5) (.float 3) h5 h3 2 (by decide) 1

/-- A place that is cleared is not read back. -/
theorem cleared_not_read : ¬∀ x i v, x.IsWhole → 1 ≤ i → v = 0 ∨ v = 1 → WrittenBack x i v := by
  intro h
  have h5 : (0 : ℤ) ≤ (5 : BitVec 64).toInt := by decide
  have hclear := h (.int 5) 1 0 h5 le_rfl (.inl rfl) 1 le_rfl
  rw [bitSetPlaceValue, if_pos rfl] at hclear
  cases hclear

end JyQipai.Basefunc
