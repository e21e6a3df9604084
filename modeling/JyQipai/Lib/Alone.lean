import JyQipai.Lib.Coroutine

/-!
# Handlers that exclude each other

Where the other handlers do nothing while one waits, a handler finds the state in which it has
stopped, and a run is a sequence of handlers that are not disturbed.
-/

namespace JyQipai.Lib

variable {σ κ A α ε : Type}

/-- The handler runs alone: it waits in states with `busy` and ends in states with `calm`. -/
abbrev Prog.Alone (valid : κ → A → Prop) (busy calm : σ → Prop) (p : Prog σ κ A α) : Prop :=
  p.Sat valid Eq (fun _ => True) busy calm fun _ => calm

def Prog.Idle (s : σ) : Prog σ κ A α → Prop
  | .done t _ => t = s
  | .raised t => t = s
  | .call _ _ _ => False

namespace Prog.Idle

variable {β : Type} {s : σ} {p : Prog σ κ A α}

theorem bind {f : α → β} (hp : p.Idle s) :
    (p.bind fun a t => (.done t (f a) : Prog σ κ A β)).Idle s := by
  cases p with
  | done t a => exact hp
  | raised t => exact hp
  | call t q resume => exact hp.elim

end Prog.Idle

namespace World

variable {handle : ε → Handler σ κ A α} {valid : κ → A → Prop} {busy calm : σ → Prop}

def Single (valid : κ → A → Prop) (busy calm : σ → Prop) (w : World σ κ A α) : Prop :=
  w.waiting = [] ∧ calm w.state ∨
    ∃ q resume, w.waiting = [(q, resume)] ∧ busy w.state ∧
      ∀ a, valid q a → (resume a w.state).Alone valid busy calm

theorem single_stop {p : Prog σ κ A α} (hp : p.Alone valid busy calm) :
    Single valid busy calm (stop [] p) := by
  cases p with
  | done t a => exact .inl ⟨rfl, hp⟩
  | raised t => exact .inl ⟨rfl, hp⟩
  | call t q resume =>
      exact .inr ⟨q, resume, rfl, hp.1, fun a ha => hp.2 a t ha rfl trivial⟩

theorem stop_idle {w : World σ κ A α} {p : Prog σ κ A α} (hp : p.Idle w.state) :
    stop w.waiting p = w := by
  cases p with
  | done t a => exact congrArg (World.mk · w.waiting) hp
  | raised t => exact congrArg (World.mk · w.waiting) hp
  | call t q resume => exact hp.elim

variable {ok : σ → ε → Prop}

theorem Single.step (hcalm : ∀ s e, calm s → ok s e → (handle e s).Alone valid busy calm)
    (hbusy : ∀ s e, busy s → ok s e → (handle e s).Idle s) {w : World σ κ A α}
    (h : Single valid busy calm w) {i : Input ε A}
    (hi : w.Admits valid ok (fun _ => True) i) :
    Single valid busy calm (w.step handle i) := by
  rcases h with ⟨hwait, hstate⟩ | ⟨q, resume, hwait, hstate, hresume⟩
  · cases i with
    | command e =>
        simp only [World.step, hwait]
        exact single_stop (hcalm w.state e hstate hi)
    | answer i a =>
        simp only [World.step, hwait, List.getElem?_nil]
        exact .inl ⟨hwait, hstate⟩
  · cases i with
    | command e =>
        have hidle : w.step handle (.command e) = w := stop_idle (hbusy w.state e hstate hi)
        rw [hidle]
        exact .inr ⟨q, resume, hwait, hstate, hresume⟩
    | answer i a =>
        cases i with
        | zero =>
            have hvalid := hi.2 (q, resume) (by simp [hwait])
            simp only [World.step, hwait, List.getElem?_cons_zero, List.eraseIdx_zero,
              List.tail_cons]
            exact single_stop (hresume a hvalid)
        | succ i =>
            simp only [World.step, hwait, List.getElem?_cons_succ, List.getElem?_nil]
            exact .inr ⟨q, resume, hwait, hstate, hresume⟩

theorem single_of_reach (hcalm : ∀ s e, calm s → ok s e → (handle e s).Alone valid busy calm)
    (hbusy : ∀ s e, busy s → ok s e → (handle e s).Idle s) {s : σ} (hs : calm s)
    {w : World σ κ A α}
    (h : Reach (World.step handle) (Admits valid ok fun _ => True) ⟨s, []⟩ w) :
    Single valid busy calm w :=
  Reach.invariant (.inl ⟨rfl, hs⟩) (fun _ _ hw hi => hw.step hcalm hbusy hi) h

end World

end JyQipai.Lib
