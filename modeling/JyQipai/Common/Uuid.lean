import Mathlib.Data.Nat.Digits.Lemmas

/-!
# Generated ids

`generate_uuid` joins the time, the address and the counter of a service by the digit 9, and
takes each digit for a position in a text.  No character is at position 0, so the zeros are
dropped.
-/

namespace JyQipai.SkynetPlus

def randChars : List Char := "6A9BD4E7FG8HJLMQNKR3TUdYabefhgijkmnqrt2uy".toList

def decimal (n : Nat) : List Nat := if n = 0 then [0] else (Nat.digits 10 n).reverse

def charAt (r : Nat) : List Char := if r = 0 then [] else randChars[r - 1]?.toList

structure Stamp where
  time : Nat
  self : Nat
  number : Nat
  deriving DecidableEq, Repr

def Stamp.format (s : Stamp) : List Nat :=
  decimal s.time ++ 9 :: decimal s.self ++ 9 :: decimal s.number

def Stamp.uuid (s : Stamp) : List Char := s.format.flatMap charAt

/-- `_uuid_number` of each service -/
abbrev Counters := Nat → Nat

def generateUuid (uuidNumber : Counters) (self time : Nat) : List Char × Counters :=
  let number := uuidNumber self + 1
  ((Stamp.mk time self number).uuid, Function.update uuidNumber self number)

structure UuidCall where
  self : Nat
  time : Nat

def uuids (uuidNumber : Counters) : List UuidCall → List (List Char)
  | [] => []
  | call :: calls =>
      let (uuid, uuidNumber) := generateUuid uuidNumber call.self call.time
      uuid :: uuids uuidNumber calls

def stamps (uuidNumber : Counters) : List UuidCall → List Stamp
  | [] => []
  | call :: calls =>
      ⟨call.time, call.self, uuidNumber call.self + 1⟩ ::
        stamps (Function.update uuidNumber call.self (uuidNumber call.self + 1)) calls

def SameButZeros (l l' : List Nat) : Prop := l.filter (· ≠ 0) = l'.filter (· ≠ 0)

/-! ## Digits and characters -/

theorem decimal_lt (n : Nat) : ∀ d ∈ decimal n, d < 10 := by
  intro d hd
  unfold decimal at hd
  split at hd
  · obtain rfl := List.mem_singleton.mp hd
    decide
  · exact Nat.digits_lt_base (by decide) (List.mem_reverse.mp hd)

theorem Stamp.format_lt (s : Stamp) : ∀ d ∈ s.format, d < 10 := by
  intro d hd
  simp only [Stamp.format, List.mem_append, List.mem_cons] at hd
  rcases hd with (hd | rfl | hd) | rfl | hd
  · exact decimal_lt _ d hd
  · decide
  · exact decimal_lt _ d hd
  · decide
  · exact decimal_lt _ d hd

def charOf (d : Nat) : Char := randChars.getD (d - 1) ' '

theorem charAt_eq : ∀ d < 10, d ≠ 0 → charAt d = [charOf d] := by decide

theorem charOf_inj : ∀ d < 10, ∀ e < 10, d ≠ 0 → e ≠ 0 → charOf d = charOf e → d = e := by decide

theorem flatMap_charAt (l : List Nat) :
    l.flatMap charAt = (l.filter (· ≠ 0)).flatMap charAt := by
  induction l with
  | nil => rfl
  | cons d l ih =>
      by_cases hd : d = 0
      · subst hd
        simpa [charAt] using ih
      · simp [hd, ih]

theorem flatMap_charAt_inj {l l' : List Nat} (hl : ∀ d ∈ l, d < 10 ∧ d ≠ 0)
    (hl' : ∀ d ∈ l', d < 10 ∧ d ≠ 0) (h : l.flatMap charAt = l'.flatMap charAt) : l = l' := by
  have hcons (d : Nat) (l : List Nat) (h : ∀ e ∈ d :: l, e < 10 ∧ e ≠ 0) :
      (d :: l).flatMap charAt = charOf d :: l.flatMap charAt := by
    obtain ⟨hlt, hne⟩ := h d List.mem_cons_self
    rw [List.flatMap_cons, charAt_eq d hlt hne, List.singleton_append]
  induction l generalizing l' with
  | nil =>
      cases l' with
      | nil => rfl
      | cons e l' =>
          rw [hcons e l' hl'] at h
          cases h
  | cons d l ih =>
      rw [hcons d l hl] at h
      cases l' with
      | nil => cases h
      | cons e l' =>
          rw [hcons e l' hl'] at h
          obtain ⟨hd, hne⟩ := hl d List.mem_cons_self
          obtain ⟨he, hne'⟩ := hl' e List.mem_cons_self
          obtain ⟨hchar, htail⟩ := List.cons.inj h
          obtain rfl := charOf_inj d hd e he hne hne' hchar
          rw [ih (fun x hx => hl x (List.mem_cons_of_mem d hx))
            (fun x hx => hl' x (List.mem_cons_of_mem d hx)) htail]

theorem flatMap_charAt_eq_iff {l l' : List Nat} (hl : ∀ d ∈ l, d < 10) (hl' : ∀ d ∈ l', d < 10) :
    l.flatMap charAt = l'.flatMap charAt ↔ SameButZeros l l' := by
  have hfilter {l : List Nat} (hl : ∀ d ∈ l, d < 10) :
      ∀ d ∈ l.filter (· ≠ 0), d < 10 ∧ d ≠ 0 := by
    intro d hd
    obtain ⟨hmem, hne⟩ := List.mem_filter.mp hd
    exact ⟨hl d hmem, of_decide_eq_true hne⟩
  rw [flatMap_charAt l, flatMap_charAt l']
  constructor
  · exact flatMap_charAt_inj (hfilter hl) (hfilter hl')
  · intro h
    rw [SameButZeros] at h
    rw [h]

theorem Stamp.uuid_eq_iff (a b : Stamp) : a.uuid = b.uuid ↔ SameButZeros a.format b.format :=
  flatMap_charAt_eq_iff a.format_lt b.format_lt

/-! ## Calls -/

theorem uuids_eq (uuidNumber : Counters) (calls : List UuidCall) :
    uuids uuidNumber calls = (stamps uuidNumber calls).map Stamp.uuid := by
  induction calls generalizing uuidNumber with
  | nil => rfl
  | cons call calls ih => rw [uuids, stamps, List.map_cons, ← ih, generateUuid]

theorem uuid_eq_iff_number (time self number number' : Nat) :
    (Stamp.mk time self number).uuid = (Stamp.mk time self number').uuid ↔
      SameButZeros (decimal number) (decimal number') := by
  rw [Stamp.uuid_eq_iff]
  simp [SameButZeros, Stamp.format]

/-- The ids of any calls in any services differ just where the digits of their numbers do
when the zeros are dropped. -/
theorem uuids_nodup_iff (uuidNumber : Counters) (calls : List UuidCall) :
    (uuids uuidNumber calls).Nodup ↔
      (stamps uuidNumber calls).Pairwise fun a b => ¬SameButZeros a.format b.format := by
  rw [uuids_eq, List.nodup_iff_pairwise_ne, List.pairwise_map]
  simp only [ne_eq, Stamp.uuid_eq_iff]

/-- The first id of a second and the tenth are the same. -/
theorem uuids_tenth : ¬∀ (self : Nat) (times : List Nat), times.Pairwise (· ≤ ·) →
    (uuids (fun _ => 0) (times.map (UuidCall.mk self))).Nodup := by
  intro h
  have hnodup := h 16777226 (List.replicate 10 1600000000) (by decide)
  rw [uuids_eq, List.nodup_iff_pairwise_ne, List.pairwise_map] at hnodup
  have hten := List.pairwise_iff_getElem.mp hnodup 0 9 (by decide) (by decide) (by decide)
  have hnumber : SameButZeros (decimal 1) (decimal 10) := by simp [SameButZeros, decimal]
  exact hten ((uuid_eq_iff_number 1600000000 16777226 1 10).mpr hnumber)

end JyQipai.SkynetPlus
