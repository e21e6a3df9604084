import JyQipai.Lib.Coroutine

/-!
# What a handler changes in total

A handler that waits runs in stretches, and other handlers run between them.
`Prog.Ends` lists the stretches of a handler that has ended.  `d s t` measures what is
changed from `s` to `t`, and `Prog.Sums` is the rule for what all stretches together
have changed.
-/

namespace JyQipai.Lib

variable {σ κ A α β M : Type} [AddCommMonoid M]

structure Stretch (σ A : Type) where
  answer : Option A
  start : σ
  stop : σ

/-- The handler that runs from `s` on ends with a result, after the stretches.  It is
resumed in states with `P`. -/
inductive Prog.Ends (valid : κ → A → Prop) (P : σ → Prop) :
    Option A → σ → Prog σ κ A α → List (Stretch σ A) → α → Prop where
  | done {x : Option A} {s t : σ} {a : α} : Ends valid P x s (.done t a) [⟨x, s, t⟩] a
  | call {x : Option A} {s t u : σ} {q : κ} {resume : A → σ → Prog σ κ A α} {y : A}
      {path : List (Stretch σ A)} {a : α} (hy : valid q y) (hu : P u)
      (h : Ends valid P (some y) u (resume y u) path a) :
      Ends valid P x s (.call t q resume) (⟨x, s, t⟩ :: path) a

/-- If the handler ends, then it has changed `m` in all, with what it had changed
before. -/
def Prog.Sums (valid : κ → A → Prop) (P : σ → Prop) (d : σ → σ → M)
    (Q : α → M → Prop) : M → σ → Prog σ κ A α → Prop
  | m, s, .done t a => Q a (m + d s t)
  | _, _, .raised _ => True
  | m, s, .call t q resume =>
      ∀ y u, valid q y → P u → (resume y u).Sums valid P d Q (m + d s t) u

def total (d : σ → σ → M) (path : List (Stretch σ A)) : M :=
  (path.map fun p => d p.start p.stop).sum

variable {valid : κ → A → Prop} {P : σ → Prop} {d : σ → σ → M} {p : Prog σ κ A α} {s t : σ} {m : M}

theorem total_cons (p : Stretch σ A) (path : List (Stretch σ A)) :
    total d (p :: path) = d p.start p.stop + total d path := List.sum_cons

theorem Prog.Ends.start_eq {x : Option A} {path : List (Stretch σ A)} {a : α}
    (h : p.Ends valid P x s path a) : ∃ t rest, path = ⟨x, s, t⟩ :: rest := by
  cases h with
  | done => exact ⟨_, _, rfl⟩
  | call hy hu h => exact ⟨_, _, rfl⟩

theorem Prog.Ends.result {x : Option A} {path : List (Stretch σ A)} {a b : α}
    (h : (Prog.done t a : Prog σ κ A α).Ends valid P x s path b) : a = b := by
  cases h with
  | done => rfl

namespace Prog.Sums

theorem of_ends {Q : α → M → Prop} (hp : p.Sums valid P d Q m s) {x : Option A}
    {path : List (Stretch σ A)} {a : α} (h : p.Ends valid P x s path a) :
    Q a (m + total d path) := by
  induction h generalizing m with
  | done =>
      rw [total_cons, total, List.map_nil, List.sum_nil, add_zero]
      exact hp
  | call hy hu h ih =>
      rw [total_cons, ← add_assoc]
      exact ih (hp _ _ hy hu)

variable (hd : ∀ s t u, d s t + d t u = d s u)
include hd

theorem of_step {Q : α → M → Prop} (hp : p.Sums valid P d Q (m + d s t) t) :
    p.Sums valid P d Q m s := by
  cases p with
  | done u a =>
      simp only [Sums, add_assoc, hd] at hp ⊢
      exact hp
  | raised u => trivial
  | call u q resume =>
      simp only [Sums, add_assoc, hd] at hp ⊢
      exact hp

theorem bind {Q : α → M → Prop} {Q' : β → M → Prop} {k : α → Handler σ κ A β}
    (hp : p.Sums valid P d Q m s)
    (hk : ∀ a t m, Q a m → (k a t).Sums valid P d Q' m t) :
    (p.bind k).Sums valid P d Q' m s := by
  induction p generalizing m s with
  | done t a => exact of_step hd (hk a t _ hp)
  | raised t => trivial
  | call t q resume ih => exact fun y u hy hu => ih y u (hp y u hy hu)

omit hd in
theorem of_goes {R : σ → σ → Prop} {I : κ → Prop} (hp : p.Goes R I s)
    (hR : ∀ s t, R s t → d s t = 0) : p.Sums valid P d (fun _ m' => m' = m) m s := by
  induction p generalizing s with
  | done t a => rw [Sums, hR s t hp, add_zero]
  | raised t => trivial
  | call t q resume ih =>
      intro y u _ _
      rw [hR s t hp.1, add_zero]
      exact ih y u (hp.2.2 y u)

end Prog.Sums

end JyQipai.Lib
