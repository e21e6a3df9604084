import JyQipai.Lib.Remote

/-!
# Handlers that rely on each other

All handlers keep an invariant and let the state only grow; each relies on the others for
that while it waits.  Which answers are admitted may depend on the state they come in.
-/

namespace JyQipai.Lib

variable {σ κ A α β ε : Type}

structure Rely (σ κ A : Type) where
  admits : κ → A → σ → Prop
  keeps : σ → Prop
  grows : σ → σ → Prop
  refl : ∀ s, grows s s
  trans : ∀ {s t u}, grows s t → grows t u → grows s u

/-- The handler that was resumed in `s` keeps the invariant and lets the state grow, up to
its end with `Q`. -/
def Prog.Stays (L : Rely σ κ A) (Q : α → σ → Prop) : σ → Prog σ κ A α → Prop
  | s, .done t a => L.keeps t ∧ L.grows s t ∧ Q a t
  | s, .raised t => L.keeps t ∧ L.grows s t
  | s, .call t q resume => L.keeps t ∧ L.grows s t ∧
      ∀ a u, L.admits q a u → L.keeps u → L.grows t u → (resume a u).Stays L Q u

namespace Prog.Stays

variable {L : Rely σ κ A} {Q : α → σ → Prop} {s t : σ} {p : Prog σ κ A α}

theorem of_grows (h : L.grows s t) (hp : p.Stays L Q t) : p.Stays L Q s := by
  cases p with
  | done u a => exact ⟨hp.1, L.trans h hp.2.1, hp.2.2⟩
  | raised u => exact ⟨hp.1, L.trans h hp.2⟩
  | call u q resume => exact ⟨hp.1, L.trans h hp.2.1, hp.2.2⟩

theorem bind {Q' : β → σ → Prop} {f : α → Handler σ κ A β} (hp : p.Stays L Q s)
    (hf : ∀ a t, L.keeps t → L.grows s t → Q a t → (f a t).Stays L Q' t) :
    (p.bind f).Stays L Q' s := by
  induction p generalizing s with
  | done t a => exact (hf a t hp.1 hp.2.1 hp.2.2).of_grows hp.2.1
  | raised t => exact hp
  | call t q resume ih =>
      refine ⟨hp.1, hp.2.1, fun a u ha hu hgrows => ?_⟩
      exact ih a u (hp.2.2 a u ha hu hgrows) fun b v hv hg hq =>
        hf b v hv (L.trans hp.2.1 (L.trans hgrows hg)) hq

theorem xpcall (hp : p.Stays L Q s) :
    p.xpcall.Stays L (fun r t => ∀ a ∈ r, Q a t) s := by
  induction p generalizing s with
  | done t a =>
      refine ⟨hp.1, hp.2.1, fun b hb => ?_⟩
      obtain rfl := Option.some.inj hb
      exact hp.2.2
  | raised t => exact ⟨hp.1, hp.2, nofun⟩
  | call t q resume ih =>
      exact ⟨hp.1, hp.2.1, fun a u ha hu hgrows => ih a u (hp.2.2 a u ha hu hgrows)⟩

theorem of_within {R : σ → σ → Prop} (hR : ∀ s t, L.keeps s → R s t → L.keeps t ∧ L.grows s t)
    (hs : L.keeps s) (hp : p.Within R s) : p.Stays L (fun _ _ => True) s := by
  induction p generalizing s with
  | done t a => exact ⟨(hR s t hs hp).1, (hR s t hs hp).2, trivial⟩
  | raised t => exact hR s t hs hp
  | call t q resume ih =>
      have ht := hR s t hs hp.1
      exact ⟨ht.1, ht.2, fun a u _ hu _ => ih a u hu (hp.2 a u)⟩

theorem inline_bind {κ' A' : Type} {remote : κ' → Handler σ κ A A'} {Q : β → σ → Prop}
    {p : Prog σ κ' A' α} {f : α → Handler σ κ' A' β}
    (hp : ((p.inline remote).bind fun a s => (f a s).inline remote).Stays L Q s) :
    ((p.bind f).inline remote).Stays L Q s := by
  rw [Prog.inline_bind]
  exact hp

end Prog.Stays

namespace World

variable {L : Rely σ κ A} {handle : ε → Handler σ κ A α} {ok : σ → ε → Prop}

def Relies (L : Rely σ κ A) (w : World σ κ A α) : Prop :=
  L.keeps w.state ∧ ∀ x ∈ w.waiting, ∃ s, L.grows s w.state ∧
    ∀ a u, L.admits x.1 a u → L.keeps u → L.grows s u →
      (x.2 a u).Stays L (fun _ _ => True) u

/-- A command fulfils `ok`, and an answer is admitted in the state it comes in. -/
def Admitted (L : Rely σ κ A) (ok : σ → ε → Prop) (w : World σ κ A α) : Input ε A → Prop
  | .command e => ok w.state e
  | .answer i a => ∀ x ∈ w.waiting[i]?, L.admits x.1 a w.state

theorem relies_stop {s : σ} {waiting : List (κ × (A → σ → Prog σ κ A α))} {p : Prog σ κ A α}
    (hp : p.Stays L (fun _ _ => True) s)
    (hw : ∀ x ∈ waiting, ∃ t, L.grows t s ∧ ∀ a u, L.admits x.1 a u → L.keeps u →
      L.grows t u → (x.2 a u).Stays L (fun _ _ => True) u) :
    Relies L (stop waiting p) := by
  have hold (t : σ) (ht : L.grows s t) : ∀ x ∈ waiting, ∃ r, L.grows r t ∧
      ∀ a u, L.admits x.1 a u → L.keeps u → L.grows r u →
        (x.2 a u).Stays L (fun _ _ => True) u := by
    intro x hx
    obtain ⟨r, hr, hres⟩ := hw x hx
    exact ⟨r, L.trans hr ht, hres⟩
  cases p with
  | done t a => exact ⟨hp.1, hold t hp.2.1⟩
  | raised t => exact ⟨hp.1, hold t hp.2⟩
  | call t q resume =>
      refine ⟨hp.1, fun x hx => ?_⟩
      rcases List.mem_append.mp hx with hx | hx
      · exact hold t hp.2.1 x hx
      · obtain rfl := List.mem_singleton.mp hx
        exact ⟨t, L.refl t, hp.2.2⟩

theorem Relies.step
    (hcmd : ∀ s e, L.keeps s → ok s e → (handle e s).Stays L (fun _ _ => True) s)
    {w : World σ κ A α} (h : Relies L w) {i : Input ε A} (hi : w.Admitted L ok i) :
    Relies L (w.step handle i) := by
  cases i with
  | command e => exact relies_stop (hcmd _ e h.1 hi) h.2
  | answer i a =>
      cases hx : w.waiting[i]? with
      | none =>
          simp only [World.step, hx]
          exact h
      | some x =>
          simp only [World.step, hx]
          obtain ⟨s, hs, hres⟩ := h.2 x (List.mem_of_getElem? hx)
          refine relies_stop (hres a _ (hi x (by simp [hx])) h.1 hs) fun y hy => ?_
          exact h.2 y (List.mem_of_mem_eraseIdx hy)

theorem relies_of_reach
    (hcmd : ∀ s e, L.keeps s → ok s e → (handle e s).Stays L (fun _ _ => True) s)
    {v w : World σ κ A α} (hv : Relies L v)
    (h : Reach (World.step handle) (Admitted L ok) v w) : Relies L w :=
  Reach.invariant hv (fun _ _ hw hi => hw.step hcmd hi) h

end World

end JyQipai.Lib
