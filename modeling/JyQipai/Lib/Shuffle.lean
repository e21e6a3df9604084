import JyQipai.Lib.Draw

/-!
# Shuffling by exchanges

Each place of a list, from the first to the last but one, is exchanged with itself or a place
behind it.
-/

namespace JyQipai.Lib.Draw

variable {α : Type}

def exchange (l : List α) (i j : Nat) : List α :=
  match l[i]?, l[j]? with
  | some a, some b => (l.set i b).set j a
  | _, _ => l

def exchanges : Nat → Nat → List α → Draw (List α)
  | 0, _, l => pure l
  | n + 1, i, l => do
      let j ← Draw.range i (l.length - 1)
      exchanges n (i + 1) (exchange l i j.toNat)

def shuffled (l : List α) : Draw (List α) := exchanges (l.length - 1) 0 l

theorem exchange_perm (l : List α) (i j : Nat) : (exchange l i j).Perm l := by
  unfold exchange
  split
  next a b ha hb =>
    obtain ⟨hi, rfl⟩ := List.getElem?_eq_some_iff.mp ha
    obtain ⟨hj, rfl⟩ := List.getElem?_eq_some_iff.mp hb
    exact List.set_set_perm hi hj
  next => exact .refl l

theorem Sure.exchanges {n i : Nat} {l : List α} (h : n + i ≤ l.length - 1) :
    Sure (exchanges n i l) (·.Perm l) := by
  induction n generalizing i l with
  | zero => exact .pure (.refl l)
  | succ n ih =>
      refine .bind (.range (by omega)) fun j _ => ?_
      have hperm := exchange_perm l i j.toNat
      have hlen := hperm.length_eq
      exact (ih (by omega)).mono fun l' hl' => hl'.trans hperm

theorem Sure.shuffled (l : List α) : Sure (shuffled l) (·.Perm l) :=
  .exchanges (by omega)

end JyQipai.Lib.Draw
