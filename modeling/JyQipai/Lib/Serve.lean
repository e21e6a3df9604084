import JyQipai.Lib.Owned

/-!
# Protected and undisturbed handlers

`Prog.xpcall` runs a handler so that an error ends only the handler itself.
`Prog.serve` runs it against a server that answers each question at once: the handler
is not disturbed while it waits, and the server has a state of its own.  `Prog.answered` is the
same with a server that also changes the state of the handlers.
-/

namespace JyQipai.Lib

variable {σ κ A α β τ M : Type}

def Prog.xpcall : Prog σ κ A α → Prog σ κ A (Option α)
  | .done s a => .done s (some a)
  | .raised s => .done s none
  | .call s q resume => .call s q fun a t => (resume a t).xpcall

theorem Prog.xpcall_bind (p : Prog σ κ A α) (f : α → Handler σ κ A β) :
    (p.bind f).xpcall = p.xpcall.bind fun r s =>
      match r with
      | none => .done s none
      | some a => (f a s).xpcall := by
  induction p with
  | done s a => rfl
  | raised s => rfl
  | call s q resume ih =>
      simp only [Prog.bind, Prog.xpcall]
      congr 1
      funext a t
      exact ih a t

theorem Prog.Within.xpcall {R : σ → σ → Prop} {s : σ} {p : Prog σ κ A α} (hp : p.Within R s) :
    p.xpcall.Within R s := by
  induction p generalizing s with
  | done t a => exact hp
  | raised t => exact hp
  | call t q resume ih => exact ⟨hp.1, fun a u => ih a u (hp.2 a u)⟩

theorem Prog.bind_assoc {γ : Type} (p : Prog σ κ A α) (f : α → Handler σ κ A β)
    (k : β → Handler σ κ A γ) :
    (p.bind f).bind k = p.bind fun a s => (f a s).bind k := by
  induction p with
  | done s a => rfl
  | raised s => rfl
  | call s q resume ih =>
      simp only [Prog.bind]
      congr 1
      funext a t
      exact ih a t

def Prog.Sure (valid : κ → A → Prop) : Prog σ κ A α → Prop
  | .done _ _ => True
  | .raised _ => False
  | .call _ q resume => ∀ a t, valid q a → (resume a t).Sure valid

theorem Prog.Sure.bind {valid : κ → A → Prop} {p : Prog σ κ A α}
    {f : α → Handler σ κ A β} (hp : p.Sure valid) (hf : ∀ a s, (f a s).Sure valid) :
    (p.bind f).Sure valid := by
  induction p with
  | done s a => exact hf a s
  | raised s => exact hp
  | call s q resume ih => exact fun a t ha => ih a t (hp a t ha)

theorem Prog.Owns.xpcall [AddCommMonoid M] {O : Owning σ κ A M} {fr : M → Prop}
    {Q : α → σ → M → Prop} {s : σ} {g : M} {p : Prog σ κ A α} (hp : p.Owns O Q fr s g)
    (hsure : p.Sure O.valid) :
    p.xpcall.Owns O (fun r t g' => ∃ a, r = some a ∧ Q a t g') fr s g := by
  induction p generalizing fr s g with
  | done t a =>
      obtain ⟨g', ht, hq⟩ := hp
      exact ⟨g', ht, a, rfl, hq⟩
  | raised t => exact absurd hsure id
  | call t q resume ih =>
      obtain ⟨g', ht, hmay, hres⟩ := hp
      exact ⟨g', ht, hmay, fun a u ha hu => ih a u (hres a u ha hu) (hsure a u ha)⟩

theorem Prog.Owns.xpcall_bind [AddCommMonoid M] {O : Owning σ κ A M} {fr : M → Prop}
    {Q : Option α → σ → M → Prop} {Q' : Option β → σ → M → Prop} {s : σ} {g : M}
    {p : Prog σ κ A α} {f : α → Handler σ κ A β} (hp : p.xpcall.Owns O Q fr s g)
    (hnone : ∀ t g, Q none t g → Q' none t g)
    (hf : ∀ fr a t g, O.keeps t → Q (some a) t g → (f a t).xpcall.Owns O Q' fr t g) :
    (p.bind f).xpcall.Owns O Q' fr s g := by
  rw [Prog.xpcall_bind]
  refine hp.bind fun fr r t g ht hq => ?_
  cases r with
  | none => exact ⟨g, ⟨ht, fun _ _ h => h⟩, hnone t g hq⟩
  | some a => exact hf fr a t g ht hq

theorem Prog.Owns.bind_bind [AddCommMonoid M] {O : Owning σ κ A M} {fr : M → Prop} {γ : Type}
    {Q : γ → σ → M → Prop} {s : σ} {g : M} {p : Prog σ κ A α} {f : α → Handler σ κ A β}
    {k : β → Handler σ κ A γ} (hp : (p.bind fun a s => (f a s).bind k).Owns O Q fr s g) :
    ((p.bind f).bind k).Owns O Q fr s g := by
  rw [Prog.bind_assoc]
  exact hp

/-- The handler answered by `answer`: the final state, the result if there is one, and
the state of the server. -/
def Prog.serve (answer : κ → τ → A × τ) : Prog σ κ A α → τ → σ × Option α × τ
  | .done s a, t => (s, some a, t)
  | .raised s, t => (s, none, t)
  | .call s q resume, t => (resume (answer q t).1 s).serve answer (answer q t).2

theorem Prog.serve_bind {answer : κ → τ → A × τ} {p : Prog σ κ A α} {t t' : τ} {s : σ}
    {a : α} (hp : p.serve answer t = (s, some a, t')) (f : α → Handler σ κ A β) :
    (p.bind f).serve answer t = (f a s).serve answer t' := by
  induction p generalizing t with
  | done u b =>
      cases hp
      rfl
  | raised u => cases hp
  | call u q resume ih => exact ih _ _ hp

def Prog.answered (oracle : κ → σ → τ → A × σ × τ) : Prog σ κ A α → τ → σ × Option α × τ
  | .done s a, t => (s, some a, t)
  | .raised s, t => (s, none, t)
  | .call s q resume, t =>
      (resume (oracle q s t).1 (oracle q s t).2.1).answered oracle (oracle q s t).2.2

variable {oracle : κ → σ → τ → A × σ × τ}

theorem Prog.answered_bind (p : Prog σ κ A α) (f : α → Handler σ κ A β) (t : τ) :
    (p.bind f).answered oracle t =
      match p.answered oracle t with
      | (s, some a, t) => (f a s).answered oracle t
      | (s, none, t) => (s, none, t) := by
  induction p generalizing t with
  | done s a => rfl
  | raised s => rfl
  | call s q resume ih => exact ih _ _ _

theorem Prog.answered_xpcall (p : Prog σ κ A α) (t : τ) :
    p.xpcall.answered oracle t =
      ((p.answered oracle t).1, some (p.answered oracle t).2.1, (p.answered oracle t).2.2) := by
  induction p generalizing t with
  | done s a => rfl
  | raised s => rfl
  | call s q resume ih => exact ih _ _ _

theorem Prog.serve_eq_answered (answer : κ → τ → A × τ) (p : Prog σ κ A α) (t : τ) :
    p.serve answer t =
      p.answered (fun q s t => ((answer q t).1, s, (answer q t).2)) t := by
  induction p generalizing t with
  | done s a => rfl
  | raised s => rfl
  | call s q resume ih => exact ih _ _ _

theorem Prog.answered_within {R : σ → σ → Prop} (htrans : ∀ {s t u}, R s t → R t u → R s u)
    (horacle : ∀ q s t, R s (oracle q s t).2.1) {p : Prog σ κ A α} {s : σ} (hp : p.Within R s)
    (t : τ) : R s (p.answered oracle t).1 := by
  induction p generalizing s t with
  | done u a => exact hp
  | raised u => exact hp
  | call u q resume ih =>
      exact htrans (htrans hp.1 (horacle q u t)) (ih _ _ (hp.2 _ _) _)

end JyQipai.Lib
