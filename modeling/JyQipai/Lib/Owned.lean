import JyQipai.Lib.Coroutine

/-!
# What waiting handlers own

A handler that waits may own a part of the shared state: a reserved amount, a
lock.  `Owning.holds s m` says that the state `s` bears everything that is owned, and
`Prog.Owns` that each segment of a handler takes and returns only what it may,
whatever the others own.  An answer to a question may ask for a restriction on what
the others own in the state it comes in, its frame.
-/

namespace JyQipai.Lib

variable {σ κ A α β ε M : Type} [AddCommMonoid M]

structure Owning (σ κ A M : Type) where
  valid : κ → A → Prop
  keeps : σ → Prop
  holds : σ → M → Prop
  may : κ → M → Prop
  frame : κ → A → σ → M → Prop

/-- From `s`, where the handler owns `g`, the state `t` is reached, where it owns
`g'`; what the others own is not touched. -/
def Owning.Turns (O : Owning σ κ A M) (fr : M → Prop) (s : σ) (g : M) (t : σ) (g' : M) :
    Prop :=
  O.keeps t ∧ ∀ f, fr f → O.holds s (g + f) → O.holds t (g' + f)

/-- The handler that was resumed in `s` and owns `g` there turns it into what it may
own at each stop, and ends with `Q`. -/
def Prog.Owns (O : Owning σ κ A M) (Q : α → σ → M → Prop) :
    (M → Prop) → σ → M → Prog σ κ A α → Prop
  | fr, s, g, .done t a => ∃ g', O.Turns fr s g t g' ∧ Q a t g'
  | fr, s, g, .raised t => O.Turns fr s g t 0
  | fr, s, g, .call t q resume => ∃ g', O.Turns fr s g t g' ∧ O.may q g' ∧
      ∀ a u, O.valid q a → O.keeps u → (resume a u).Owns O Q (O.frame q a u) u g'

def Owning.comap {κ' : Type} (O : Owning σ κ' A M) (f : κ → κ') : Owning σ κ A M where
  valid q := O.valid (f q)
  keeps := O.keeps
  holds := O.holds
  may q := O.may (f q)
  frame q := O.frame (f q)

theorem Owning.Turns.trans {O : Owning σ κ A M} {fr : M → Prop} {s t u : σ} {g g' g'' : M}
    (h : O.Turns fr s g t g') (h' : O.Turns fr t g' u g'') : O.Turns fr s g u g'' :=
  ⟨h'.1, fun f hf hs => h'.2 f hf (h.2 f hf hs)⟩

namespace Prog.Owns

variable {O : Owning σ κ A M} {fr : M → Prop} {s t : σ} {g g' : M}

theorem of_turns {Q : α → σ → M → Prop} {p : Prog σ κ A α} (h : O.Turns fr s g t g')
    (hp : p.Owns O Q fr t g') : p.Owns O Q fr s g := by
  cases p with
  | done u a =>
      obtain ⟨g₁, hu, hq⟩ := hp
      exact ⟨g₁, h.trans hu, hq⟩
  | raised u => exact h.trans hp
  | call u q resume =>
      obtain ⟨g₁, hu, hmay, hres⟩ := hp
      exact ⟨g₁, h.trans hu, hmay, hres⟩

theorem bind {Q : α → σ → M → Prop} {Q' : β → σ → M → Prop} {p : Prog σ κ A α}
    {k : α → Handler σ κ A β} (hp : p.Owns O Q fr s g)
    (hk : ∀ fr a t g, O.keeps t → Q a t g → (k a t).Owns O Q' fr t g) :
    (p.bind k).Owns O Q' fr s g := by
  induction p generalizing fr s g with
  | done t a =>
      obtain ⟨g₁, ht, hq⟩ := hp
      exact (hk fr a t g₁ ht.1 hq).of_turns ht
  | raised t => exact hp
  | call t q resume ih =>
      obtain ⟨g₁, ht, hmay, hres⟩ := hp
      exact ⟨g₁, ht, hmay, fun a u ha hu => ih a u (hres a u ha hu)⟩

theorem of_goes {R : σ → σ → Prop} {I : κ → Prop} {p : Prog σ κ A α}
    (hp : p.Goes R I s) (hs : O.keeps s)
    (hR : ∀ fr s t, O.keeps s → R s t → O.Turns fr s g t g) (hI : ∀ q, I q → O.may q g)
    (hfail : ∀ fr s t, O.keeps s → R s t → O.Turns fr s g t 0) :
    p.Owns O (fun _ _ g' => g' = g) fr s g := by
  induction p generalizing fr s with
  | done t a => exact ⟨g, hR fr s t hs hp, rfl⟩
  | raised t => exact hfail fr s t hs hp
  | call t q resume ih =>
      obtain ⟨ht, hq, hres⟩ := hp
      exact ⟨g, hR fr s t hs ht, hI q hq, fun a u _ hu => ih a u (hres a u) hu⟩

theorem mapAsk {κ' : Type} {O : Owning σ κ' A M} {f : κ → κ'} {Q : α → σ → M → Prop}
    {p : Prog σ κ A α} (hp : p.Owns (O.comap f) Q fr s g) :
    (p.mapAsk f).Owns O Q fr s g := by
  induction p generalizing fr s g with
  | done t a => exact hp
  | raised t => exact hp
  | call t q resume ih =>
      obtain ⟨g₁, ht, hmay, hres⟩ := hp
      exact ⟨g₁, ht, hmay, fun a u ha hu => ih a u (hres a u ha hu)⟩

theorem mono {Q Q' : α → σ → M → Prop} {p : Prog σ κ A α} (hp : p.Owns O Q fr s g)
    (hQ : ∀ a t g, Q a t g → Q' a t g) : p.Owns O Q' fr s g := by
  induction p generalizing fr s g with
  | done t a =>
      obtain ⟨g₁, ht, hq⟩ := hp
      exact ⟨g₁, ht, hQ a t g₁ hq⟩
  | raised t => exact hp
  | call t q resume ih =>
      obtain ⟨g₁, ht, hmay, hres⟩ := hp
      exact ⟨g₁, ht, hmay, fun a u ha hu => ih a u (hres a u ha hu)⟩

end Prog.Owns

/-! ## Runs -/

namespace World

/-- The handler waits and owns `g`; in the end it owns nothing. -/
def Waits (O : Owning σ κ A M) (x : κ × (A → σ → Prog σ κ A α)) (g : M) : Prop :=
  O.may x.1 g ∧ ∀ a u, O.valid x.1 a → O.keeps u →
    (x.2 a u).Owns O (fun _ _ g => g = 0) (O.frame x.1 a u) u g

def Owned (O : Owning σ κ A M) (w : World σ κ A α) : Prop :=
  O.keeps w.state ∧ ∃ gs : List M, O.holds w.state gs.sum ∧
    List.Forall₂ (Waits O) w.waiting gs

def Framed (O : Owning σ κ A M) (w : World σ κ A α) (i : Nat) (a : A) : Prop :=
  ∀ x ∈ w.waiting[i]?, ∀ (g : M) (rest : List M), O.holds w.state (g + rest.sum) →
    Waits O x g → List.Forall₂ (Waits O) (w.waiting.eraseIdx i) rest →
      O.frame x.1 a w.state rest.sum

variable {O : Owning σ κ A M}

theorem owned_stop {waiting : List (κ × (A → σ → Prog σ κ A α))} {gs : List M}
    {p : Prog σ κ A α} {fr : M → Prop} {s : σ} {g : M}
    (hp : p.Owns O (fun _ _ g => g = 0) fr s g) (hframe : fr gs.sum)
    (hs : O.holds s (g + gs.sum)) (hwait : List.Forall₂ (Waits O) waiting gs) :
    Owned O (stop waiting p) := by
  cases p with
  | done t a =>
      obtain ⟨g', ht, rfl⟩ := hp
      have hholds := ht.2 _ hframe hs
      rw [zero_add] at hholds
      exact ⟨ht.1, gs, hholds, hwait⟩
  | raised t =>
      have hholds := hp.2 _ hframe hs
      rw [zero_add] at hholds
      exact ⟨hp.1, gs, hholds, hwait⟩
  | call t q resume =>
      obtain ⟨g', ht, hmay, hres⟩ := hp
      refine ⟨ht.1, gs ++ [g'], ?_, List.rel_append hwait (.cons ⟨hmay, hres⟩ .nil)⟩
      rw [List.sum_append, List.sum_singleton, add_comm]
      exact ht.2 _ hframe hs

theorem Owned.step {handle : ε → Handler σ κ A α} {ok : σ → ε → Prop}
    (hcmd : ∀ s e, O.keeps s → ok s e →
      (handle e s).Owns O (fun _ _ g => g = 0) (fun _ => True) s 0)
    {w : World σ κ A α} (h : Owned O w) {i : Input ε A}
    (hi : w.Admits O.valid ok (fun _ => True) i)
    (hframe : ∀ j a, i = .answer j a → w.Framed O j a) : Owned O (w.step handle i) := by
  obtain ⟨hkeeps, gs, hholds, hwait⟩ := h
  cases i with
  | command e =>
      rw [← zero_add gs.sum] at hholds
      exact owned_stop (hcmd _ e hkeeps hi) trivial hholds hwait
  | answer j a =>
      cases hx : w.waiting[j]? with
      | none =>
          simp only [World.step, hx]
          exact ⟨hkeeps, gs, hholds, hwait⟩
      | some x =>
          simp only [World.step, hx]
          have hfr := hframe j a rfl x (by simp [hx])
          obtain ⟨hlt, rfl⟩ := List.getElem?_eq_some_iff.mp hx
          have hlen := hwait.length_eq
          have hres := (List.forall₂_iff_get.mp hwait).2 j hlt (hlen ▸ hlt)
          have hrest := List.rel_append (List.forall₂_take j hwait)
            (List.forall₂_drop (j + 1) hwait)
          dsimp only at hrest
          rw [← List.eraseIdx_eq_take_drop_succ, ← List.eraseIdx_eq_take_drop_succ] at hrest
          rw [← List.CommMonoid.add_sum_eraseIdx (h := hlen ▸ hlt)] at hholds
          exact owned_stop (hres.2 a _ (hi.2 _ (by simp [hx])) hkeeps)
            (hfr _ _ hholds hres hrest) hholds hrest

end World

end JyQipai.Lib
