import Mathlib.Data.Finset.Card

/-!
# Polls that end early

A rule looks at the votes for and against that were counted so far and may end the poll.  It
foretells the result when it ends the poll only if the votes that are missing cannot change the
result, and ends it at the latest with the last vote; then the order of the votes does not matter.
-/

namespace JyQipai.Lib

variable {α R : Type*}

/-- With `n` voters, the rule `verdict` on votes for and against ends with the result that `final`
gives for all the votes against. -/
structure Foretells (n : Nat) (verdict : Nat → Nat → Option R) (final : Nat → R) : Prop where
  early : ∀ {a d e r}, verdict a d = some r → d ≤ e → a + e ≤ n → final e = r
  complete : ∀ {a d}, a + d = n → verdict a d ≠ none

namespace Foretells

variable {n : Nat} {verdict : Nat → Nat → Option R} {final : Nat → R}
  {voters voted : Finset α} {yes : α → Prop} [DecidablePred yes] {r : R}

theorem eq_final (h : Foretells n verdict final) (hcard : voters.card = n) (hsub : voted ⊆ voters)
    (hr : verdict (voted.filter yes).card (voted.filter fun p => ¬yes p).card = some r) :
    final (voters.filter fun p => ¬yes p).card = r := by
  have hyes : (voted.filter yes).card ≤ (voters.filter yes).card :=
    Finset.card_le_card (Finset.filter_subset_filter yes hsub)
  have hall := Finset.card_filter_add_card_filter_not (s := voters) yes
  exact h.early hr (Finset.card_le_card (Finset.filter_subset_filter _ hsub)) (by omega)

theorem ne_none (h : Foretells n verdict final) (hcard : voters.card = n) :
    verdict (voters.filter yes).card (voters.filter fun p => ¬yes p).card ≠ none :=
  h.complete ((Finset.card_filter_add_card_filter_not yes).trans hcard)

end Foretells

end JyQipai.Lib
