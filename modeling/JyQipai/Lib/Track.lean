import JyQipai.Lib.Coroutine

/-!
# What a handler remembers

A handler that waits may rely on what it has seen before, if every stretch of every
handler stays within a relation `R` that keeps it: the state it is resumed in is related
to the state it was left in.
-/

namespace JyQipai.Lib

variable {σ κ A α ε : Type}

/-- Every stop fulfils `J`; while the handler waits, `J` is kept and `R` is not left. -/
abbrev Prog.Tracks (valid : κ → A → Prop) (P J : σ → Prop) (R : σ → σ → Prop)
    (p : Prog σ κ A α) : Prop :=
  p.Sat valid (fun s t => J t ∧ R s t) P J J fun _ => J

namespace World

variable {handle : ε → Handler σ κ A α} {valid : κ → A → Prop} {ok : σ → ε → Prop}
  {P J : σ → Prop} {R : σ → σ → Prop}

/-- `J` holds, and every handler that waits will keep it from all states that are related
to the one it was left in. -/
def Tracked (valid : κ → A → Prop) (P J : σ → Prop) (R : σ → σ → Prop) (w : World σ κ A α) :
    Prop :=
  J w.state ∧ ∀ x ∈ w.waiting, (∀ a u, (x.2 a u).Within R u) ∧
    ∃ s, R s w.state ∧ ∀ a t, valid x.1 a → J t → R s t → P t →
      (x.2 a t).Tracks valid P J R

theorem tracked_stop (hrefl : ∀ s, R s s) (htrans : ∀ {s t u}, R s t → R t u → R s u) {s : σ}
    {waiting : List (κ × (A → σ → Prog σ κ A α))} {p : Prog σ κ A α}
    (hp : p.Tracks valid P J R) (hwithin : p.Within R s)
    (hw : ∀ x ∈ waiting, (∀ a u, (x.2 a u).Within R u) ∧
      ∃ t, R t s ∧ ∀ a u, valid x.1 a → J u → R t u → P u → (x.2 a u).Tracks valid P J R) :
    Tracked valid P J R (stop waiting p) := by
  have hold (t : σ) (ht : R s t) : ∀ x ∈ waiting, (∀ a u, (x.2 a u).Within R u) ∧
      ∃ s, R s t ∧ ∀ a u, valid x.1 a → J u → R s u → P u → (x.2 a u).Tracks valid P J R := by
    intro x hx
    obtain ⟨hwith, r, hr, hres⟩ := hw x hx
    exact ⟨hwith, r, htrans hr ht, hres⟩
  cases p with
  | done t a => exact ⟨hp, hold t hwithin⟩
  | raised t => exact ⟨hp, hold t hwithin⟩
  | call t q resume =>
      refine ⟨hp.1, fun x hx => ?_⟩
      rcases List.mem_append.mp hx with hx | hx
      · exact hold t hwithin.1 x hx
      · obtain rfl := List.mem_singleton.mp hx
        exact ⟨hwithin.2, t, hrefl t, fun a u ha hu hru hP => hp.2 a u ha ⟨hu, hru⟩ hP⟩

theorem Tracked.step (hrefl : ∀ s, R s s) (htrans : ∀ {s t u}, R s t → R t u → R s u)
    (hcmd : ∀ s e, J s → ok s e → (handle e s).Tracks valid P J R)
    (hwithin : ∀ e s, (handle e s).Within R s) {w : World σ κ A α}
    (h : Tracked valid P J R w) {i : Input ε A} (hi : w.Admits valid ok P i) :
    Tracked valid P J R (w.step handle i) := by
  cases i with
  | command e =>
      exact tracked_stop hrefl htrans (hcmd _ _ h.1 hi) (hwithin e _) h.2
  | answer i a =>
      cases hx : w.waiting[i]? with
      | none =>
          simp only [World.step, hx]
          exact h
      | some x =>
          simp only [World.step, hx]
          obtain ⟨hwith, s, hs, hres⟩ := h.2 x (List.mem_of_getElem? hx)
          refine tracked_stop hrefl htrans (hres a _ (hi.2 x (by simp [hx])) h.1 hs hi.1)
            (hwith a _) fun y hy => ?_
          exact h.2 y (List.mem_of_mem_eraseIdx hy)

end World

end JyQipai.Lib
