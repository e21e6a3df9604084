import JyQipai.Lib.Coroutine

/-!
# The first stretch of a handler

What a command does at once, apart from what its handler may do later, once it is answered.
-/

namespace JyQipai.Lib

variable {σ κ A α β ε : Type}

/-- The first stretch leads to a state with `Q`, and all later ones are within `R`. -/
def Prog.Leads (R : σ → σ → Prop) (Q : σ → Prop) : Prog σ κ A α → Prop
  | .done s _ => Q s
  | .raised s => Q s
  | .call s _ resume => Q s ∧ ∀ a u, (resume a u).Within R u

variable {R : σ → σ → Prop} {Q : σ → Prop}

theorem Prog.Leads.mono {Q' : σ → Prop} {p : Prog σ κ A α} (hp : p.Leads R Q)
    (h : ∀ s, Q s → Q' s) : p.Leads R Q' := by
  cases p with
  | done s a => exact h s hp
  | raised s => exact h s hp
  | call s q resume => exact ⟨h s hp.1, hp.2⟩

theorem Prog.Within.map {p : Prog σ κ A α} {s : σ} (hp : p.Within R s) (f : α → β) :
    (p.bind fun a t => .done t (f a)).Within R s := by
  induction p generalizing s with
  | done t a => exact hp
  | raised t => exact hp
  | call t q resume ih => exact ⟨hp.1, fun a u => ih a u (hp.2 a u)⟩

theorem Prog.Leads.map {p : Prog σ κ A α} (hp : p.Leads R Q) (f : α → β) :
    (p.bind fun a t => .done t (f a)).Leads R Q := by
  cases p with
  | done t a => exact hp
  | raised t => exact hp
  | call t q resume => exact ⟨hp.1, fun a u => (hp.2 a u).map f⟩

namespace World

variable {handle : ε → Handler σ κ A α} {w : World σ κ A α}

theorem AllWithin.command (hw : w.AllWithin R) {e : ε} (hp : (handle e w.state).Leads R Q) :
    (w.step handle (.command e)).AllWithin R ∧ Q (w.step handle (.command e)).state := by
  rw [World.step]
  cases hrun : handle e w.state with
  | done s a =>
      rw [hrun] at hp
      exact ⟨hw, hp⟩
  | raised s =>
      rw [hrun] at hp
      exact ⟨hw, hp⟩
  | call s q resume =>
      rw [hrun] at hp
      refine ⟨fun x hx => ?_, hp.1⟩
      rcases List.mem_append.mp hx with hx | hx
      · exact hw x hx
      · obtain rfl := List.mem_singleton.mp hx
        exact hp.2

theorem AllWithin.answer (hw : w.AllWithin R) (hrefl : ∀ s, R s s) (i : Nat) (a : A) :
    (w.step handle (.answer i a)).AllWithin R ∧
      R w.state (w.step handle (.answer i a)).state := by
  cases hx : w.waiting[i]? with
  | none =>
      simp only [World.step, hx]
      exact ⟨hw, hrefl _⟩
  | some x =>
      simp only [World.step, hx]
      exact allWithin_stop (hw x (List.mem_of_getElem? hx) a _)
        fun y hy => hw y (List.mem_of_mem_eraseIdx hy)

end World

end JyQipai.Lib
