import Mathlib

/-!
# Computations with draws

A computation reads its draws from a tape and may fail.  `Always` is the rule of
postconditions for whatever the draws are; `Sure` says moreover that it does not fail.
-/

namespace JyQipai.Lib

structure Tape where
  unit : Nat → ℚ
  nat : Nat → Nat

def Draw (α : Type) : Type := Tape → Nat → Option (α × Nat)

namespace Draw

variable {α β : Type}

instance : Monad Draw where
  pure a := fun _ k => some (a, k)
  bind x f := fun t k => (x t k).bind fun r => f r.1 t r.2

def fail : Draw α := fun _ _ => none

def unit : Draw ℚ := fun t k => some (t.unit k, k + 1)

def range (m n : Int) : Draw Int := fun t k =>
  if m ≤ n then some (m + t.nat k % (n - m + 1), k + 1) else none

def choose (l : List α) : Draw α := fun t k => l[t.nat k % l.length]?.map fun a => (a, k + 1)

def ofOption (o : Option α) : Draw α := fun _ k => o.map fun a => (a, k)

/-- Every result fulfils `Q`. -/
def Always (x : Draw α) (Q : α → Prop) : Prop := ∀ t k r, x t k = some r → Q r.1

def after (x : Draw α) (p : α → Tape → Nat → Bool) : Tape → Nat → Bool := fun t k =>
  (x t k).all fun r => p r.1 t r.2

/-- Every result fulfils `Q` if the draws pass the test. -/
def Under (test : Tape → Nat → Bool) (x : Draw α) (Q : α → Prop) : Prop :=
  ∀ t k r, test t k = true → x t k = some r → Q r.1

/-- There is a result, and it fulfils `Q`. -/
def Sure (x : Draw α) (Q : α → Prop) : Prop := ∀ t k, ∃ r, x t k = some r ∧ Q r.1

namespace Always

variable {x : Draw α} {f : α → Draw β} {P Q : α → Prop} {R : β → Prop}

theorem pure {a : α} (h : Q a) : Always (Pure.pure a : Draw α) Q := by
  intro t k r hr
  obtain rfl := Option.some.inj hr
  exact h

theorem bind (hx : Always x P) (hf : ∀ a, P a → Always (f a) R) : Always (x >>= f) R := by
  intro t k r hr
  obtain ⟨s, hs, hfs⟩ := Option.bind_eq_some_iff.mp hr
  exact hf s.1 (hx t k s hs) t s.2 r hfs

theorem mono (hx : Always x P) (h : ∀ a, P a → Q a) : Always x Q :=
  fun t k r hr => h r.1 (hx t k r hr)

theorem trivial (x : Draw α) : Always x fun _ => True := fun _ _ _ _ => True.intro

theorem any (hf : ∀ a, Always (f a) R) : Always (x >>= f) R :=
  bind (trivial x) fun a _ => hf a

theorem fail : Always (Draw.fail : Draw α) Q := nofun

end Always

theorem always_choose (l : List α) : Always (choose l) (· ∈ l) := by
  intro t k r hr
  obtain ⟨a, ha, rfl⟩ := Option.map_eq_some_iff.mp hr
  exact List.mem_of_getElem? ha

theorem always_ofOption (o : Option α) : Always (ofOption o) fun a => o = some a := by
  intro t k r hr
  obtain ⟨a, ha, rfl⟩ := Option.map_eq_some_iff.mp hr
  exact ha

namespace Under

variable {test : Tape → Nat → Bool} {x : Draw α} {f : α → Draw β} {P Q : α → Prop}
  {R : β → Prop} {next : α → Tape → Nat → Bool}

theorem of_always (h : Always x Q) : Under test x Q := fun t k r _ hr => h t k r hr

theorem pure {a : α} (h : Q a) : Under test (Pure.pure a : Draw α) Q := of_always (.pure h)

theorem any (hf : ∀ a, Under (next a) (f a) R) : Under (after x next) (x >>= f) R := by
  intro t k r ht hr
  obtain ⟨s, hs, hfs⟩ := Option.bind_eq_some_iff.mp hr
  rw [after, hs] at ht
  exact hf s.1 t s.2 r ht hfs

theorem through (hx : Under test x P) (hf : ∀ a, P a → Always (f a) R) :
    Under test (x >>= f) R := by
  intro t k r ht hr
  obtain ⟨s, hs, hfs⟩ := Option.bind_eq_some_iff.mp hr
  exact hf s.1 (hx t k s ht hs) t s.2 r hfs

theorem bind (hx : Under test x P) (hf : ∀ a, P a → Under (next a) (f a) R) :
    Under (fun t k => test t k && after x next t k) (x >>= f) R := by
  intro t k r ht hr
  obtain ⟨htest, hnext⟩ := Bool.and_eq_true_iff.mp ht
  obtain ⟨s, hs, hfs⟩ := Option.bind_eq_some_iff.mp hr
  rw [after, hs] at hnext
  exact hf s.1 (hx t k s htest hs) t s.2 r hnext hfs

end Under

namespace Sure

variable {x : Draw α} {f : α → Draw β} {P Q : α → Prop} {R : β → Prop}

theorem pure {a : α} (h : Q a) : Sure (Pure.pure a : Draw α) Q := fun _ k => ⟨(a, k), rfl, h⟩

theorem bind (hx : Sure x P) (hf : ∀ a, P a → Sure (f a) R) : Sure (x >>= f) R := by
  intro t k
  obtain ⟨s, hs, hp⟩ := hx t k
  obtain ⟨r, hr, hq⟩ := hf s.1 hp t s.2
  refine ⟨r, ?_, hq⟩
  change (x t k).bind _ = _
  rw [hs]
  exact hr

theorem mono (hx : Sure x P) (h : ∀ a, P a → Q a) : Sure x Q := fun t k =>
  (hx t k).imp fun r hr => ⟨hr.1, h r.1 hr.2⟩

theorem unit : Sure Draw.unit fun _ => True := fun t k => ⟨(t.unit k, k + 1), rfl, trivial⟩

theorem range {m n : Int} (h : m ≤ n) : Sure (Draw.range m n) fun i => m ≤ i ∧ i ≤ n := by
  intro t k
  refine ⟨(m + t.nat k % (n - m + 1), k + 1), if_pos h, ?_⟩
  have hpos := Int.emod_nonneg (t.nat k : Int) (show n - m + 1 ≠ 0 by omega)
  have hlt := Int.emod_lt_of_pos (t.nat k : Int) (show 0 < n - m + 1 by omega)
  dsimp only
  omega

theorem choose {l : List α} (h : l ≠ []) : Sure (Draw.choose l) (· ∈ l) := by
  intro t k
  have hlt : t.nat k % l.length < l.length := Nat.mod_lt _ (List.length_pos_iff.mpr h)
  refine ⟨(l[t.nat k % l.length], k + 1), ?_, List.getElem_mem hlt⟩
  rw [Draw.choose, List.getElem?_eq_getElem hlt]
  rfl

theorem ofOption {o : Option α} {a : α} (h : o = some a) (hq : Q a) :
    Sure (Draw.ofOption o) Q := by
  intro t k
  subst h
  exact ⟨(a, k), rfl, hq⟩

end Sure

end Draw

end JyQipai.Lib
