import JyQipai.Lib.Coroutine

/-!
# Books that balance while handlers wait

A handler that moves something from one account to another may be interrupted
between the two entries.  `Prog.Owes` says what such a handler still has to enter
at each stop, and `Balanced` that the books and the open amounts of all waiting
handlers together make zero.

An epoch closes the books: they are empty at its start.  A handler that is
interrupted by the start of an epoch would enter its rest into the new books, so
the answer to a question that closes the books must find no other handler waiting.
-/

namespace JyQipai.Lib

variable {σ κ A α β ε γ : Type} [AddCommGroup γ]

/-- What a system of books fixes: the valid answers, the questions that may leave
an amount open, those whose answer may close the books, the invariant of the
state, the epochs and the books themselves. -/
structure Bookkeeping (σ κ A γ : Type) where
  valid : κ → A → Prop
  opens : κ → Prop
  closes : κ → Prop
  keeps : σ → Prop
  epoch : σ → Nat
  books : σ → γ

/-- The books with the open amount `g`: they make `c` in the epoch `e`, and
nothing in a later one, which is reached only if the books may be closed. -/
structure Bookkeeping.Account (B : Bookkeeping σ κ A γ) (may : Prop) (e : Nat) (c g : γ)
    (s : σ) : Prop where
  keeps : B.keeps s
  later : e ≤ B.epoch s
  closed : may ∨ B.epoch s = e
  sum : B.books s + g = if B.epoch s = e then c else 0

variable (B : Bookkeeping σ κ A γ)

/-- The handler was resumed in the epoch `e` when the books and its open amount
made `c`, and keeps account of what it has still to enter. -/
def Prog.Owes : Prop → Nat → γ → Prog σ κ A α → Prop
  | may, e, c, .done s _ => B.Account may e c 0 s
  | may, e, c, .raised s => B.Account may e c 0 s
  | may, e, c, .call s q resume => ∃ g, B.Account may e c g s ∧ (B.opens q ∨ g = 0) ∧
      ∀ a t, B.valid q a → B.keeps t →
        (resume a t).Owes (B.closes q) (B.epoch t) (B.books t + g)

variable {B}

theorem Bookkeeping.Account.resume {s : σ} (h : B.keeps s) (may : Prop) (g : γ) :
    B.Account may (B.epoch s) (B.books s + g) g s :=
  ⟨h, Nat.le_refl _, .inr rfl, by rw [if_pos rfl]⟩

theorem Prog.Owes.bind {p : Prog σ κ A α} {g : α → Handler σ κ A β} {may : Prop} {e : Nat}
    {c : γ} (hp : p.Owes B may e c)
    (hg : ∀ a s may e c, B.Account may e c 0 s → (g a s).Owes B may e c) :
    (p.bind g).Owes B may e c := by
  induction p generalizing may e c with
  | done s a => exact hg a s may e c hp
  | raised s => exact hp
  | call s q resume ih =>
      obtain ⟨o, ho, hopen, hres⟩ := hp
      exact ⟨o, ho, hopen, fun a t ha ht => ih a t (hres a t ha ht)⟩

/-! ## Runs -/

namespace World

/-- A waiting handler with the open amount `g`. -/
def Owing (B : Bookkeeping σ κ A γ) (x : κ × (A → σ → Prog σ κ A α)) (g : γ) : Prop :=
  (B.opens x.1 ∨ g = 0) ∧ ∀ a s, B.valid x.1 a → B.keeps s →
    (x.2 a s).Owes B (B.closes x.1) (B.epoch s) (B.books s + g)

def Balanced (B : Bookkeeping σ κ A γ) (w : World σ κ A α) : Prop :=
  B.keeps w.state ∧ ∃ gs : List γ, B.books w.state + gs.sum = 0 ∧
    List.Forall₂ (Owing B) w.waiting gs

def ClosesAlone (closes : κ → Prop) (w : World σ κ A α) : Input ε A → Prop
  | .command _ => True
  | .answer i _ => ∀ x ∈ w.waiting[i]?, closes x.1 → w.waiting.eraseIdx i = []

instance decidableClosesAlone {closes : κ → Prop} [DecidablePred closes]
    (w : World σ κ A α) : (i : Input ε A) → Decidable (w.ClosesAlone closes i)
  | .command _ => .isTrue trivial
  | .answer i _ => inferInstanceAs (Decidable
      (∀ x ∈ w.waiting[i]?, closes x.1 → w.waiting.eraseIdx i = []))

theorem Balanced.books_eq_zero {w : World σ κ A α} (h : Balanced B w)
    (hw : ∀ x ∈ w.waiting, ¬ B.opens x.1) : B.books w.state = 0 := by
  obtain ⟨-, gs, hsum, hwait⟩ := h
  have hzero : gs.sum = 0 := by
    clear hsum
    generalize w.waiting = waiting at hw hwait
    induction hwait with
    | nil => rfl
    | cons hx _ ih =>
        have hg := hx.1.resolve_left (hw _ (by simp))
        rw [List.sum_cons, hg, zero_add]
        exact ih (fun x hx => hw x (by simp [hx]))
  rwa [hzero, add_zero] at hsum

theorem balanced_stop {waiting : List (κ × (A → σ → Prog σ κ A α))} {gs : List γ}
    {p : Prog σ κ A α} {may : Prop} {e : Nat} {c : γ} (hp : p.Owes B may e c)
    (hwait : List.Forall₂ (Owing B) waiting gs) (hsum : c + gs.sum = 0)
    (hmay : may → waiting = []) : Balanced B (stop waiting p) := by
  have htotal : ∀ {s g}, B.Account may e c g s → B.books s + g + gs.sum = 0 := by
    intro s g hs
    rw [hs.sum]
    split
    · exact hsum
    · next hne =>
      have hempty := hmay (hs.closed.resolve_right hne)
      subst hempty
      rw [List.forall₂_nil_left_iff.mp hwait]
      simp
  cases p with
  | done s a =>
      have := htotal hp
      rw [add_zero] at this
      exact ⟨hp.keeps, gs, this, hwait⟩
  | raised s =>
      have := htotal hp
      rw [add_zero] at this
      exact ⟨hp.keeps, gs, this, hwait⟩
  | call s q resume =>
      obtain ⟨o, ho, hopen, hres⟩ := hp
      refine ⟨ho.keeps, gs ++ [o], ?_, List.rel_append hwait (.cons ⟨hopen, hres⟩ .nil)⟩
      rw [List.sum_append, List.sum_singleton, add_comm gs.sum, ← add_assoc]
      exact htotal ho

theorem Balanced.step {handle : ε → Handler σ κ A α} {ok : σ → ε → Prop}
    (hcmd : ∀ s e, B.keeps s → ok s e →
      (handle e s).Owes B False (B.epoch s) (B.books s))
    {w : World σ κ A α} (h : Balanced B w) {i : Input ε A}
    (hi : w.Admits B.valid ok (fun _ => True) i) (halone : w.ClosesAlone B.closes i) :
    Balanced B (w.step handle i) := by
  obtain ⟨hK, gs, hsum, hwait⟩ := h
  cases i with
  | command e => exact balanced_stop (hcmd _ e hK hi) hwait hsum False.elim
  | answer i a =>
      cases hx : w.waiting[i]? with
      | none =>
          simp only [World.step, hx]
          exact ⟨hK, gs, hsum, hwait⟩
      | some x =>
          simp only [World.step, hx]
          have hclose := halone x (by simp [hx])
          obtain ⟨hlt, rfl⟩ := List.getElem?_eq_some_iff.mp hx
          have hlen := hwait.length_eq
          have hres := List.forall₂_iff_get.mp hwait
          have hrest := List.rel_append (List.forall₂_take i hwait)
            (List.forall₂_drop (i + 1) hwait)
          dsimp only at hrest
          rw [← List.eraseIdx_eq_take_drop_succ, ← List.eraseIdx_eq_take_drop_succ] at hrest
          refine balanced_stop
            ((hres.2 i hlt (hlen ▸ hlt)).2 a _ (hi.2 _ (by simp [hx])) hK) hrest ?_ hclose
          rw [add_assoc, List.get_eq_getElem, List.CommMonoid.add_sum_eraseIdx]
          exact hsum

theorem balanced_of_reach {handle : ε → Handler σ κ A α} {ok : σ → ε → Prop} {s : σ}
    {w : World σ κ A α} (hK : B.keeps s) (hs : B.books s = 0)
    (hcmd : ∀ s e, B.keeps s → ok s e →
      (handle e s).Owes B False (B.epoch s) (B.books s))
    (h : Reach (World.step handle) (fun w i => w.Admits B.valid ok (fun _ => True) i ∧
      w.ClosesAlone B.closes i) ⟨s, []⟩ w) : Balanced B w :=
  Reach.invariant (P := Balanced B)
    ⟨hK, [], by simpa using hs, .nil⟩ (fun _ _ hw hi => hw.step hcmd hi.1 hi.2) h

end World

end JyQipai.Lib
