import JyQipai.Lib.Serve

/-!
# Questions to another service

`Prog.inline` puts the handlers of another service in the place of a handler's questions: the
handler waits while the other one runs, and as long as that one waits.
-/

namespace JyQipai.Lib

variable {σ κ κ' A A' α β : Type}

def Prog.inline (remote : κ → Handler σ κ' A' A) : Prog σ κ A α → Prog σ κ' A' α
  | .done s a => .done s a
  | .raised s => .raised s
  | .call s q resume => (remote q s).bind fun a t => (resume a t).inline remote

variable {remote : κ → Handler σ κ' A' A}

theorem Prog.inline_bind (p : Prog σ κ A α) (f : α → Handler σ κ A β) :
    (p.bind f).inline remote = (p.inline remote).bind fun a s => (f a s).inline remote := by
  induction p with
  | done s a => rfl
  | raised s => rfl
  | call s q resume ih =>
      simp only [Prog.bind, Prog.inline, ih]
      exact (Prog.bind_assoc _ _ _).symm

theorem Prog.Within.inline {R : σ → σ → Prop} (htrans : ∀ {s t u}, R s t → R t u → R s u)
    {p : Prog σ κ A α} {s : σ} (hp : p.Within R s)
    (hremote : ∀ q s, (remote q s).Within R s) : (p.inline remote).Within R s := by
  induction p generalizing s with
  | done t a => exact hp
  | raised t => exact hp
  | call t q resume ih =>
      have hq : (remote q t).Within R s :=
        Prog.Within.of_step (R := R) (fun h h' => htrans h h') hp.1 (hremote q t)
      exact Prog.Within.bind (R := R) (fun h h' => htrans h h') hq fun a u => ih a u (hp.2 a u)

end JyQipai.Lib
