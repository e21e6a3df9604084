import JyQipai.Lib.Reach

/-!
# Handlers that wait for answers

The handlers of a service share a state.  A handler runs without interruption
until it ends, raises an error, or calls another service; in the last case it
waits, and goes on with the answer in the state it then finds.  `Prog` is such a
handler from some state on, and a `World` the shared state together with the
handlers that wait.

`Prog.Sat` is the rule of pre- and postconditions for a handler that is not
disturbed while it waits, and `World.Sequential` the runs in which no handler is.
-/

namespace JyQipai.Lib

/-- A run of a handler over states `σ` that calls with questions `κ` and is
answered by `A`. -/
inductive Prog (σ κ A α : Type) where
  | done (s : σ) (a : α)
  | raised (s : σ)
  | call (s : σ) (q : κ) (resume : A → σ → Prog σ κ A α)

def Handler (σ κ A α : Type) : Type := σ → Prog σ κ A α

variable {σ κ A α β ε : Type}

def Prog.bind (p : Prog σ κ A α) (f : α → Handler σ κ A β) : Prog σ κ A β :=
  match p with
  | .done s a => f a s
  | .raised s => .raised s
  | .call s q resume => .call s q fun a t => (resume a t).bind f

def Prog.mapAsk {κ' : Type} (f : κ → κ') : Prog σ κ A α → Prog σ κ' A α
  | .done s a => .done s a
  | .raised s => .raised s
  | .call s q resume => .call s (f q) fun a t => (resume a t).mapAsk f

/-! ## Pre- and postconditions -/

/-- Every stop of the handler fulfils the specification: it waits only in states
with `I`, raises errors only in states with `E` and ends with `Q`, if every
answer is valid, what happens while it waits is within `U`, and it is resumed in
states with `P`. -/
def Prog.Sat (valid : κ → A → Prop) (U : σ → σ → Prop) (P I E : σ → Prop)
    (Q : α → σ → Prop) : Prog σ κ A α → Prop
  | .done s a => Q a s
  | .raised s => E s
  | .call s q resume => I s ∧
      ∀ a t, valid q a → U s t → P t → (resume a t).Sat valid U P I E Q

namespace Prog.Sat

variable {valid : κ → A → Prop} {U : σ → σ → Prop} {P I E : σ → Prop} {p : Prog σ κ A α}

theorem bind {R : α → σ → Prop} {Q : β → σ → Prop} {f : α → Handler σ κ A β}
    (hp : p.Sat valid U P I E R) (hf : ∀ a s, R a s → (f a s).Sat valid U P I E Q) :
    (p.bind f).Sat valid U P I E Q := by
  induction p with
  | done s a => exact hf a s hp
  | raised s => exact hp
  | call s q resume ih =>
      exact ⟨hp.1, fun a t ha ht hpt => ih a t (hp.2 a t ha ht hpt)⟩

theorem mono {E' : σ → Prop} {Q Q' : α → σ → Prop} (hp : p.Sat valid U P I E Q)
    (hE : ∀ s, E s → E' s) (hQ : ∀ a s, Q a s → Q' a s) :
    p.Sat valid U P I E' Q' := by
  induction p with
  | done s a => exact hQ a s hp
  | raised s => exact hE s hp
  | call s q resume ih =>
      exact ⟨hp.1, fun a t ha ht hpt => ih a t (hp.2 a t ha ht hpt)⟩

end Prog.Sat

/-! ## Handlers that are interrupted -/

/-- Every stop of the handler fulfils `J`, whatever happens while it waits, as
long as that keeps `J` and leads to a state with `P`. -/
abbrev Prog.Keeps (valid : κ → A → Prop) (P J : σ → Prop) (p : Prog σ κ A α) : Prop :=
  p.Sat valid (fun _ => J) P J J fun _ => J

/-- From each state it is resumed in, the handler reaches its next stop within
the relation `R`. -/
def Prog.Within (R : σ → σ → Prop) : σ → Prog σ κ A α → Prop
  | s, .done t _ => R s t
  | s, .raised t => R s t
  | s, .call t _ resume => R s t ∧ ∀ a u, (resume a u).Within R u

namespace Prog.Within

variable {R : σ → σ → Prop} {p : Prog σ κ A α} {s t : σ}

theorem of_step (htrans : ∀ {s t u}, R s t → R t u → R s u) (h : R s t)
    (hp : p.Within R t) : p.Within R s := by
  cases p with
  | done u a => exact htrans h hp
  | raised u => exact htrans h hp
  | call u q resume => exact ⟨htrans h hp.1, hp.2⟩

theorem bind (htrans : ∀ {s t u}, R s t → R t u → R s u) {f : α → Handler σ κ A β}
    (hp : p.Within R s) (hf : ∀ a t, (f a t).Within R t) :
    (p.bind f).Within R s := by
  induction p generalizing s with
  | done t a => exact (hf a t).of_step htrans hp
  | raised t => exact hp
  | call t q resume ih => exact ⟨hp.1, fun a u => ih a u (hp.2 a u)⟩

theorem keeps {P J : σ → Prop} {valid : κ → A → Prop}
    (hJ : ∀ s t, J s → R s t → J t) (hs : J s) (hp : p.Within R s) :
    p.Keeps valid P J := by
  induction p generalizing s with
  | done t a => exact hJ s t hs hp
  | raised t => exact hJ s t hs hp
  | call t q resume ih =>
      exact ⟨hJ s t hs hp.1, fun a u _ hu _ => ih a u hu (hp.2 a u)⟩

end Prog.Within

/-- Each stretch of the handler stays within `R`, and each of its questions fulfils
`I`. -/
def Prog.Goes (R : σ → σ → Prop) (I : κ → Prop) : σ → Prog σ κ A α → Prop
  | s, .done t _ => R s t
  | s, .raised t => R s t
  | s, .call t q resume => R s t ∧ I q ∧ ∀ a u, (resume a u).Goes R I u

namespace Prog.Goes

variable {R : σ → σ → Prop} {I : κ → Prop} {p : Prog σ κ A α} {s t : σ}

theorem of_step (htrans : ∀ {s t u}, R s t → R t u → R s u) (h : R s t)
    (hp : p.Goes R I t) : p.Goes R I s := by
  cases p with
  | done u a => exact htrans h hp
  | raised u => exact htrans h hp
  | call u q resume => exact ⟨htrans h hp.1, hp.2⟩

theorem bind (htrans : ∀ {s t u}, R s t → R t u → R s u) {f : α → Handler σ κ A β}
    (hp : p.Goes R I s) (hf : ∀ a t, (f a t).Goes R I t) : (p.bind f).Goes R I s := by
  induction p generalizing s with
  | done t a => exact (hf a t).of_step htrans hp
  | raised t => exact hp
  | call t q resume ih => exact ⟨hp.1, hp.2.1, fun a u => ih a u (hp.2.2 a u)⟩

end Prog.Goes

/-! ## Runs -/

structure World (σ κ A α : Type) where
  state : σ
  waiting : List (κ × (A → σ → Prog σ κ A α)) := []

inductive Input (ε A : Type) where
  | command (e : ε)
  | answer (i : Nat) (a : A)

namespace World

def stop (waiting : List (κ × (A → σ → Prog σ κ A α))) :
    Prog σ κ A α → World σ κ A α
  | .done s _ => ⟨s, waiting⟩
  | .raised s => ⟨s, waiting⟩
  | .call s q resume => ⟨s, waiting ++ [(q, resume)]⟩

variable (handle : ε → Handler σ κ A α)

def step (w : World σ κ A α) : Input ε A → World σ κ A α
  | .command e => stop w.waiting (handle e w.state)
  | .answer i a =>
      match w.waiting[i]? with
      | none => w
      | some (_, resume) => stop (w.waiting.eraseIdx i) (resume a w.state)

variable (valid : κ → A → Prop) (ok : σ → ε → Prop)

/-- Commands fulfil `ok`, and answers are valid and come in states with `P`. -/
def Admits (P : σ → Prop) (w : World σ κ A α) : Input ε A → Prop
  | .command e => ok w.state e
  | .answer i a => P w.state ∧ ∀ x ∈ w.waiting[i]?, valid x.1 a

def Sequential (idle : σ → ε → Prop) (P : σ → Prop) (w : World σ κ A α) : Input ε A → Prop
  | .command e => (w.waiting = [] ∨ idle w.state e) ∧ ok w.state e
  | .answer i a => P w.state ∧ ∀ x ∈ w.waiting[i]?, valid x.1 a

instance decidableAdmits [∀ q a, Decidable (valid q a)] [∀ s e, Decidable (ok s e)]
    {P : σ → Prop} [∀ s, Decidable (P s)] (w : World σ κ A α) :
    (i : Input ε A) → Decidable (w.Admits valid ok P i)
  | .command e => inferInstanceAs (Decidable (ok w.state e))
  | .answer i a =>
      inferInstanceAs (Decidable (P w.state ∧ ∀ x ∈ w.waiting[i]?, valid x.1 a))

instance decidableSequential [∀ q a, Decidable (valid q a)] [∀ s e, Decidable (ok s e)]
    {idle : σ → ε → Prop} [∀ s e, Decidable (idle s e)] {P : σ → Prop} [∀ s, Decidable (P s)]
    (w : World σ κ A α) : (i : Input ε A) → Decidable (w.Sequential valid ok idle P i)
  | .command e =>
      inferInstanceAs (Decidable ((w.waiting = [] ∨ idle w.state e) ∧ ok w.state e))
  | .answer i a =>
      inferInstanceAs (Decidable (P w.state ∧ ∀ x ∈ w.waiting[i]?, valid x.1 a))

variable {handle valid ok} {P J I : σ → Prop}

/-- `J` holds, and every handler that waits will keep it. -/
def Kept (valid : κ → A → Prop) (P J : σ → Prop) (w : World σ κ A α) : Prop :=
  J w.state ∧ ∀ x ∈ w.waiting, ∀ a s, valid x.1 a → J s → P s →
    (x.2 a s).Keeps valid P J

theorem kept_stop {waiting : List (κ × (A → σ → Prog σ κ A α))} {p : Prog σ κ A α}
    (hp : p.Keeps valid P J) (hw : ∀ x ∈ waiting, ∀ a s, valid x.1 a → J s → P s →
      (x.2 a s).Keeps valid P J) : Kept valid P J (stop waiting p) := by
  cases p with
  | done s a => exact ⟨hp, hw⟩
  | raised s => exact ⟨hp, hw⟩
  | call s q resume =>
      refine ⟨hp.1, fun x hx => ?_⟩
      rcases List.mem_append.mp hx with hx | hx
      · exact hw x hx
      · obtain rfl := List.mem_singleton.mp hx
        exact hp.2

theorem Kept.step (hcmd : ∀ s e, J s → ok s e → (handle e s).Keeps valid P J)
    {w : World σ κ A α} (h : Kept valid P J w) {e : Input ε A} (he : w.Admits valid ok P e) :
    Kept valid P J (w.step handle e) := by
  cases e with
  | command e => exact kept_stop (hcmd _ _ h.1 he) h.2
  | answer i a =>
      cases hx : w.waiting[i]? with
      | none =>
          simp only [World.step, hx]
          exact h
      | some x =>
          simp only [World.step, hx]
          have hmem := List.mem_of_getElem? hx
          refine kept_stop (h.2 x hmem a _ (he.2 x (by simp [hx])) h.1 he.1)
            fun y hy => ?_
          exact h.2 y (List.mem_of_mem_eraseIdx hy)

theorem Kept.reach (hcmd : ∀ s e, J s → ok s e → (handle e s).Keeps valid P J)
    {v w : World σ κ A α} (hv : Kept valid P J v)
    (h : Reach (World.step handle) (Admits valid ok P) v w) : Kept valid P J w :=
  Reach.invariant hv (fun _ _ hw he => hw.step hcmd he) h

theorem kept_of_reach {s : σ} {w : World σ κ A α} (hs : J s)
    (hcmd : ∀ s e, J s → ok s e → (handle e s).Keeps valid P J)
    (h : Reach (World.step handle) (Admits valid ok P) ⟨s, []⟩ w) : Kept valid P J w :=
  Kept.reach hcmd ⟨hs, by simp⟩ h

/-- All stretches of the handlers that wait are within `R`. -/
def AllWithin (R : σ → σ → Prop) (w : World σ κ A α) : Prop :=
  ∀ x ∈ w.waiting, ∀ a u, (x.2 a u).Within R u

theorem allWithin_stop {R : σ → σ → Prop} {s : σ}
    {waiting : List (κ × (A → σ → Prog σ κ A α))} {p : Prog σ κ A α} (hp : p.Within R s)
    (hw : ∀ x ∈ waiting, ∀ a u, (x.2 a u).Within R u) :
    AllWithin R (stop waiting p) ∧ R s (stop waiting p).state := by
  cases p with
  | done t a => exact ⟨hw, hp⟩
  | raised t => exact ⟨hw, hp⟩
  | call t q resume =>
      refine ⟨fun x hx => ?_, hp.1⟩
      rcases List.mem_append.mp hx with hx | hx
      · exact hw x hx
      · obtain rfl := List.mem_singleton.mp hx
        exact hp.2

theorem AllWithin.step {R : σ → σ → Prop} (hrefl : ∀ s, R s s)
    (hcmd : ∀ e s, (handle e s).Within R s) {w : World σ κ A α} (h : AllWithin R w)
    (i : Input ε A) : AllWithin R (w.step handle i) ∧ R w.state (w.step handle i).state := by
  cases i with
  | command e => exact allWithin_stop (hcmd e w.state) h
  | answer i a =>
      cases hx : w.waiting[i]? with
      | none =>
          simp only [World.step, hx]
          exact ⟨h, hrefl _⟩
      | some x =>
          simp only [World.step, hx]
          exact allWithin_stop (h x (List.mem_of_getElem? hx) a _)
            fun y hy => h y (List.mem_of_mem_eraseIdx hy)

theorem AllWithin.reach {R : σ → σ → Prop} (hrefl : ∀ s, R s s)
    (htrans : ∀ {s t u}, R s t → R t u → R s u) (hcmd : ∀ e s, (handle e s).Within R s)
    {allowed : World σ κ A α → Input ε A → Prop} {v w : World σ κ A α} (hv : AllWithin R v)
    (h : Reach (World.step handle) allowed v w) : AllWithin R w ∧ R v.state w.state := by
  induction h with
  | refl => exact ⟨hv, hrefl _⟩
  | @tail t i _ _ ih =>
      have hstep := ih.1.step hrefl hcmd i
      exact ⟨hstep.1, htrans ih.2 hstep.2⟩

section Settled

variable {U : σ → σ → Prop}

/-- No handler waits and `J` holds, or one handler waits that will establish `J` as
long as the state only changes by `U`. -/
def Settled (valid : κ → A → Prop) (U : σ → σ → Prop) (P J : σ → Prop)
    (w : World σ κ A α) : Prop :=
  J w.state ∧ (w.waiting = [] ∨ ∃ x, w.waiting = [x] ∧
    ∀ a u, valid x.1 a → U w.state u → P u → (x.2 a u).Sat valid U P J J fun _ => J)

theorem settled_stop {p : Prog σ κ A α} (hp : p.Sat valid U P J J fun _ => J) :
    Settled valid U P J (stop [] p) := by
  cases p with
  | done s a => exact ⟨hp, .inl rfl⟩
  | raised s => exact ⟨hp, .inl rfl⟩
  | call s q resume => exact ⟨hp.1, .inr ⟨_, rfl, hp.2⟩⟩

variable {idle : σ → ε → Prop}

theorem Settled.step (hcmd : ∀ s e, J s → ok s e →
      (handle e s).Sat valid U P J J fun _ => J)
    (hidle : ∀ s e, idle s e → ∃ t a, handle e s = .done t a ∧ U s t)
    (hrefl : ∀ s, U s s) (htrans : ∀ {s t u}, U s t → U t u → U s u)
    (hJ : ∀ {s t}, J s → U s t → J t)
    {w : World σ κ A α} (h : Settled valid U P J w) {i : Input ε A}
    (hi : w.Sequential valid ok idle P i) : Settled valid U P J (w.step handle i) := by
  obtain ⟨hnow, hwait | ⟨x, hx, hres⟩⟩ := h
  · cases i with
    | command e =>
        rw [World.step, hwait]
        exact settled_stop (hcmd _ _ hnow hi.2)
    | answer i a =>
        simp only [World.step, hwait, List.getElem?_nil]
        exact ⟨hnow, .inl hwait⟩
  · cases i with
    | command e =>
        have hquiet : idle w.state e := hi.1.resolve_left (by simp [hx])
        obtain ⟨t, a, hdone, ht⟩ := hidle _ _ hquiet
        simp only [World.step, hdone, stop]
        exact ⟨hJ hnow ht, .inr ⟨x, hx, fun a u ha hu => hres a u ha (htrans ht hu)⟩⟩
    | answer i a =>
        obtain ⟨hP, hvalid⟩ := hi
        cases i with
        | zero =>
            have hfirst := hvalid x (by simp [hx])
            simp only [World.step, hx, List.getElem?_cons_zero, List.eraseIdx_zero,
              List.tail_cons]
            exact settled_stop (hres a _ hfirst (hrefl _) hP)
        | succ i =>
            simp only [World.step, hx, List.getElem?_cons_succ, List.getElem?_nil]
            exact ⟨hnow, .inr ⟨x, hx, hres⟩⟩

theorem settled_of_reach {s : σ} {w : World σ κ A α} (hs : J s)
    (hcmd : ∀ s e, J s → ok s e → (handle e s).Sat valid U P J J fun _ => J)
    (hidle : ∀ s e, idle s e → ∃ t a, handle e s = .done t a ∧ U s t)
    (hrefl : ∀ s, U s s) (htrans : ∀ {s t u}, U s t → U t u → U s u)
    (hJ : ∀ {s t}, J s → U s t → J t)
    (h : Reach (World.step handle) (Sequential valid ok idle P) ⟨s, []⟩ w) :
    Settled valid U P J w :=
  Reach.invariant ⟨hs, .inl rfl⟩
    (fun _ _ hw hi => hw.step hcmd hidle hrefl htrans hJ hi) h

end Settled

end World

end JyQipai.Lib
