import Mathlib.Data.Nat.Basic

/-!
# URI escapes

`escape_uri` writes a byte in hexadecimal without a leading zero, and `unescape_uri` reads two
hexadecimal digits.  So the bytes below 16 are those that do not come back.
-/

namespace JyQipai.Basefunc

abbrev Bytes := List UInt8

def between (first last : Char) (b : UInt8) : Bool := first.toUInt8 ≤ b ∧ b ≤ last.toUInt8

/-- The class `[A-z0-9\\-_.~]`; the last hyphen makes a range from the backslash to `_`. -/
def plain (b : UInt8) : Bool :=
  between 'A' 'z' b || between '0' '9' b || between '\\' '_' b || b == '.'.toUInt8 ||
    b == '~'.toUInt8

def percent : UInt8 := '%'.toUInt8

def hexDigit (n : Nat) : UInt8 :=
  if n < 10 then UInt8.ofNat ('0'.toNat + n) else UInt8.ofNat ('A'.toNat + (n - 10))

def formatX (b : UInt8) : Bytes :=
  if b.toNat < 16 then [hexDigit b.toNat]
  else [hexDigit (b.toNat / 16), hexDigit (b.toNat % 16)]

def escapeUri (uri : Bytes) : Bytes :=
  uri.flatMap fun char => if plain char then [char] else percent :: formatX char

def isXDigit (b : UInt8) : Bool := between '0' '9' b || between 'A' 'F' b || between 'a' 'f' b

def hexValue (b : UInt8) : Nat :=
  if between '0' '9' b then b.toNat - '0'.toNat
  else if between 'A' 'F' b then b.toNat - 'A'.toNat + 10
  else b.toNat - 'a'.toNat + 10

def unescapeUri : Bytes → Bytes
  | c :: a :: b :: rest =>
      if c = percent ∧ isXDigit a ∧ isXDigit b then
        UInt8.ofNat (16 * hexValue a + hexValue b) :: unescapeUri rest
      else c :: unescapeUri (a :: b :: rest)
  | c :: rest => c :: unescapeUri rest
  | [] => []

def reserved : Bytes := [' ', '+', '/', '?', '#', '&', '='].map Char.toUInt8

structure RoundTrip (s : Bytes) : Prop where
  back : unescapeUri (escapeUri s) = s
  clean : ∀ b ∈ escapeUri s, b ∉ reserved

variable {s rest : Bytes} {a b c : UInt8}

/-! ## The bytes of an escape -/

theorem hexDigit_spec : ∀ n < 16, isXDigit (hexDigit n) = true ∧ hexValue (hexDigit n) = n ∧
    plain (hexDigit n) = true := by
  decide

theorem plain_iff : plain b = true ↔ 65 ≤ b.toNat ∧ b.toNat ≤ 122 ∨ 48 ≤ b.toNat ∧ b.toNat ≤ 57 ∨
    b.toNat = 46 ∨ b.toNat = 126 := by
  have hdot : b = '.'.toUInt8 ↔ b.toNat = 46 := UInt8.toNat_inj.symm
  have htilde : b = '~'.toUInt8 ↔ b.toNat = 126 := UInt8.toNat_inj.symm
  have hbounds : 'A'.toUInt8.toNat = 65 ∧ 'z'.toUInt8.toNat = 122 ∧ '0'.toUInt8.toNat = 48 ∧
      '9'.toUInt8.toNat = 57 ∧ '\\'.toUInt8.toNat = 92 ∧ '_'.toUInt8.toNat = 95 := by decide
  simp only [plain, between, Bool.or_eq_true, decide_eq_true_eq, beq_iff_eq,
    UInt8.le_iff_toNat_le, hdot, htilde, hbounds]
  omega

theorem isXDigit_iff : isXDigit b = true ↔ 48 ≤ b.toNat ∧ b.toNat ≤ 57 ∨
    65 ≤ b.toNat ∧ b.toNat ≤ 70 ∨ 97 ≤ b.toNat ∧ b.toNat ≤ 102 := by
  have hbounds : '0'.toUInt8.toNat = 48 ∧ '9'.toUInt8.toNat = 57 ∧ 'A'.toUInt8.toNat = 65 ∧
      'F'.toUInt8.toNat = 70 ∧ 'a'.toUInt8.toNat = 97 ∧ 'f'.toUInt8.toNat = 102 := by decide
  simp only [isXDigit, between, Bool.or_eq_true, decide_eq_true_eq,
    UInt8.le_iff_toNat_le, hbounds]
  omega

theorem plain_of_isXDigit (h : isXDigit b = true) : plain b = true := by
  rw [isXDigit_iff] at h
  rw [plain_iff]
  omega

theorem ne_percent_of_plain (h : plain b = true) : b ≠ percent := by
  rintro rfl
  exact absurd h (by decide)

theorem formatX_low (hb : b.toNat < 16) : formatX b = [hexDigit b.toNat] := if_pos hb

theorem formatX_high (hb : ¬b.toNat < 16) :
    formatX b = [hexDigit (b.toNat / 16), hexDigit (b.toNat % 16)] := if_neg hb

theorem plain_formatX (b : UInt8) : ∀ c ∈ formatX b, plain c = true := by
  have hlt := b.toNat_lt
  intro c hc
  unfold formatX at hc
  split at hc
  · rename_i hb
    obtain rfl := List.mem_singleton.mp hc
    exact (hexDigit_spec _ hb).2.2
  · rcases List.mem_cons.mp hc with rfl | hc
    · exact (hexDigit_spec _ (by omega)).2.2
    · obtain rfl := List.mem_singleton.mp hc
      exact (hexDigit_spec _ (by omega)).2.2

theorem escapeUri_clean : ∀ b ∈ escapeUri s, b ∉ reserved := by
  have hpercent : percent ∉ reserved := by decide
  have hall : reserved.all (fun b => !plain b) = true := rfl
  have hplain (b : UInt8) (hb : b ∈ reserved) : plain b = false :=
    (Bool.not_eq_true' _).mp (List.all_eq_true.mp hall b hb)
  have hclean (b : UInt8) (hb : plain b = true) : b ∉ reserved := fun hmem => by
    rw [hplain b hmem] at hb
    cases hb
  intro b hb
  obtain ⟨c, -, hb⟩ := List.mem_flatMap.mp hb
  split at hb
  · rename_i hc
    obtain rfl := List.mem_singleton.mp hb
    exact hclean b hc
  · rcases List.mem_cons.mp hb with rfl | hb
    · exact hpercent
    · exact hclean b (plain_formatX c b hb)

/-! ## Reading an escape -/

theorem escapeUri_plain (h : plain b = true) : escapeUri (b :: s) = b :: escapeUri s := by
  simp [escapeUri, h]

theorem escapeUri_not_plain (h : ¬plain b = true) :
    escapeUri (b :: s) = percent :: (formatX b ++ escapeUri s) := by
  simp [escapeUri, h]

theorem unescapeUri_cons (h : c ≠ percent) : unescapeUri (c :: rest) = c :: unescapeUri rest := by
  rcases rest with _ | ⟨a, _ | ⟨b, rest⟩⟩
  · rfl
  · rfl
  · simp [unescapeUri, h]

theorem unescapeUri_percent (ha : isXDigit a = true) (hb : isXDigit b = true) :
    unescapeUri (percent :: a :: b :: rest) =
      UInt8.ofNat (16 * hexValue a + hexValue b) :: unescapeUri rest := by
  simp [unescapeUri, ha, hb]

theorem unescapeUri_single (ha : a ≠ percent) (hrest : ∀ b ∈ rest.head?, isXDigit b = false) :
    unescapeUri (percent :: a :: rest) = percent :: a :: unescapeUri rest := by
  cases rest with
  | nil => rfl
  | cons b rest =>
      have hb : isXDigit b = false := hrest b rfl
      simp [unescapeUri, hb, unescapeUri_cons ha]

theorem unescapeUri_high (hb : ¬b.toNat < 16) :
    unescapeUri (escapeUri (b :: s)) = b :: unescapeUri (escapeUri s) := by
  have hlt := b.toNat_lt
  by_cases hplain : plain b = true
  · rw [escapeUri_plain hplain, unescapeUri_cons (ne_percent_of_plain hplain)]
  · obtain ⟨hx, hv, -⟩ := hexDigit_spec (b.toNat / 16) (by omega)
    obtain ⟨hx', hv', -⟩ := hexDigit_spec (b.toNat % 16) (by omega)
    rw [escapeUri_not_plain hplain, formatX_high hb, List.cons_append, List.cons_append,
      List.nil_append, unescapeUri_percent hx hx', hv, hv', Nat.div_add_mod, UInt8.ofNat_toNat]

theorem unescapeUri_low (hb : b.toNat < 16) :
    (∃ c t v, s = c :: t ∧ plain c = true ∧
        unescapeUri (escapeUri (b :: s)) = v :: unescapeUri (escapeUri t)) ∨
      unescapeUri (escapeUri (b :: s)) =
        percent :: hexDigit b.toNat :: unescapeUri (escapeUri s) := by
  have hplain : ¬plain b = true := fun h => by
    rw [plain_iff] at h
    omega
  obtain ⟨hx, -, hp⟩ := hexDigit_spec b.toNat hb
  rw [escapeUri_not_plain hplain, formatX_low hb, List.singleton_append]
  cases s with
  | nil => exact .inr rfl
  | cons c t =>
      by_cases hc : isXDigit c = true
      · have hcp := plain_of_isXDigit hc
        rw [escapeUri_plain hcp, unescapeUri_percent hx hc]
        exact .inl ⟨c, t, _, rfl, hcp, rfl⟩
      · refine .inr (unescapeUri_single (ne_percent_of_plain hp) fun d hd => ?_)
        by_cases hcp : plain c = true
        · rw [escapeUri_plain hcp] at hd
          obtain rfl := Option.some.inj hd
          exact Bool.not_eq_true _ ▸ hc
        · rw [escapeUri_not_plain hcp] at hd
          obtain rfl := Option.some.inj hd
          rfl

/-! ## The bytes that do not come back -/

def lows (s : Bytes) : Nat := s.countP fun b => b.toNat < 16

theorem lows_cons (b : UInt8) (s : Bytes) :
    lows (b :: s) = lows s + if b.toNat < 16 then 1 else 0 := by
  simp [lows, List.countP_cons]

theorem length_lows_unescapeUri (s : Bytes) :
    (unescapeUri (escapeUri s)).length + 2 * lows (unescapeUri (escapeUri s)) + lows s ≤
      s.length + 2 * lows s := by
  induction hn : s.length using Nat.strongRecOn generalizing s with
  | _ n ih =>
      subst hn
      cases s with
      | nil => exact le_rfl
      | cons b s =>
          have hrest := ih s.length (by simp) s rfl
          by_cases hb : b.toNat < 16
          · rw [lows_cons b s, if_pos hb]
            rcases unescapeUri_low (s := s) hb with ⟨c, t, v, rfl, hc, heq⟩ | heq
            · have ht := ih t.length (by simp only [List.length_cons]; omega) t rfl
              have hhigh : ¬c.toNat < 16 := by
                rw [plain_iff] at hc
                omega
              rw [heq, lows_cons v, lows_cons c, if_neg hhigh]
              simp only [List.length_cons]
              split <;> omega
            · have hdigit : ¬(hexDigit b.toNat).toNat < 16 := by
                have hp := (hexDigit_spec b.toNat hb).2.2
                rw [plain_iff] at hp
                omega
              rw [heq, lows_cons percent, lows_cons (hexDigit b.toNat), if_neg hdigit,
                if_neg (by decide)]
              simp only [List.length_cons]
              omega
          · rw [unescapeUri_high hb, lows_cons, lows_cons, if_neg hb]
            simp only [List.length_cons]
            omega

theorem unescapeUri_escapeUri_iff (s : Bytes) :
    unescapeUri (escapeUri s) = s ↔ ∀ b ∈ s, 16 ≤ b.toNat := by
  constructor
  · intro h b hb
    have hle := length_lows_unescapeUri s
    rw [h] at hle
    have hzero : lows s = 0 := by omega
    have hhigh := List.countP_eq_zero.mp hzero b hb
    exact not_lt.mp (of_decide_eq_false (Bool.not_eq_true _ ▸ hhigh))
  · intro h
    induction s with
    | nil => rfl
    | cons b s ih =>
        have hb := h b List.mem_cons_self
        rw [unescapeUri_high (not_lt.mpr hb), ih fun c hc => h c (List.mem_cons_of_mem b hc)]

/-- A string comes back unless it has a byte below 16. -/
theorem roundTrip_iff (s : Bytes) : RoundTrip s ↔ ∀ b ∈ s, 16 ≤ b.toNat :=
  ⟨fun h => (unescapeUri_escapeUri_iff s).mp h.back,
    fun h => ⟨(unescapeUri_escapeUri_iff s).mpr h, escapeUri_clean⟩⟩

/-- A line feed becomes `%A`, and stays so. -/
theorem line_feed_not_back : ¬∀ s : Bytes, RoundTrip s := by
  intro h
  exact absurd (h ['\n'.toUInt8]).back (by decide)

end JyQipai.Basefunc
