import JyQipai.Ddz.PaiType

/-!
# The rules of Dou Dizhu

What a play is and which play beats which, stated apart from the code: a play
beats another one of its own type with a larger key (and, for runs, the same
length); soft bombs beat everything that is no bomb, real bombs also soft
bombs, and the rocket everything.
-/

namespace JyQipai.Ddz

def isRunType (type : Nat) : Bool := [6, 7, 10, 11, 12].contains type

def PaiType.key (p : PaiType) : Nat := p.pai.getD 0 0

def PaiType.runEnd (p : PaiType) : Nat := p.pai.getD 1 0

structure PaiType.Wf (p : PaiType) : Prop where
  type_le : p.type ≤ 15
  key_ge : p.type ≠ 0 → 3 ≤ p.key
  run : isRunType p.type → p.key < p.runEnd
  shunzi : p.type = 6 → p.key + 4 ≤ p.runEnd
  liandui : p.type = 7 → p.key + 2 ≤ p.runEnd

/-- The play `p` beats the play `q`. -/
def PaiType.Beats (p q : PaiType) : Prop :=
  (p.type = q.type ∧ q.key < p.key ∧
    (isRunType p.type → (p.runEnd : Int) - p.key = q.runEnd - q.key)) ∨
  (p.type = 15 ∧ q.type ≠ 13 ∧ q.type ≠ 14 ∧ q.type ≠ 15) ∨
  (p.type = 13 ∧ q.type ≠ 13 ∧ q.type ≠ 14) ∨
  p.type = 14

instance (p q : PaiType) : Decidable (p.Beats q) := by
  unfold PaiType.Beats
  infer_instance

instance (p : PaiType) : Decidable p.Wf :=
  decidable_of_iff
    (p.type ≤ 15 ∧ (p.type ≠ 0 → 3 ≤ p.key) ∧
      (isRunType p.type → p.key < p.runEnd) ∧
      (p.type = 6 → p.key + 4 ≤ p.runEnd) ∧ (p.type = 7 → p.key + 2 ≤ p.runEnd))
    ⟨fun ⟨h1, h2, h3, h4, h5⟩ => ⟨h1, h2, h3, h4, h5⟩,
      fun ⟨h1, h2, h3, h4, h5⟩ => ⟨h1, h2, h3, h4, h5⟩⟩

theorem PaiType.Wf.pai_cons {p : PaiType} (h : p.Wf) (htype : p.type ≠ 0) :
    ∃ rest, p.pai = p.key :: rest := by
  have hkey := h.key_ge htype
  obtain ⟨type, pai⟩ := p
  cases pai with
  | nil => simp [PaiType.key] at hkey
  | cons a rest => exact ⟨rest, rfl⟩

theorem PaiType.Wf.pai_run {p : PaiType} (h : p.Wf) (hrun : isRunType p.type) :
    ∃ rest, p.pai = p.key :: p.runEnd :: rest := by
  have hlt := h.run hrun
  obtain ⟨type, pai⟩ := p
  match pai with
  | [] => simp [PaiType.key, PaiType.runEnd] at hlt
  | [a] => simp [PaiType.key, PaiType.runEnd] at hlt
  | a :: b :: rest => exact ⟨rest, rfl⟩

end JyQipai.Ddz
