import Mathlib

/-!
# Operations out of order

Operations of a type `ω` change a state.  A list of them is executed from its head on.
An operation that commutes with all that stand before it may be executed first.
-/

namespace JyQipai.Lib

variable {ω σ : Type*} (apply : ω → σ → σ)

def applyAll (ops : List ω) (s : σ) : σ := ops.foldl (fun s op => apply op s) s

def Commutes (a b : ω) : Prop := ∀ s, apply a (apply b s) = apply b (apply a s)

variable {apply}

@[simp]
theorem applyAll_nil (s : σ) : applyAll apply [] s = s := rfl

@[simp]
theorem applyAll_cons (op : ω) (ops : List ω) (s : σ) :
    applyAll apply (op :: ops) s = applyAll apply ops (apply op s) := rfl

theorem applyAll_append (a b : List ω) (s : σ) :
    applyAll apply (a ++ b) s = applyAll apply b (applyAll apply a s) := by
  unfold applyAll
  rw [List.foldl_append]

theorem applyAll_comm {op : ω} {ops : List ω} (h : ∀ x ∈ ops, Commutes apply x op) (s : σ) :
    applyAll apply ops (apply op s) = apply op (applyAll apply ops s) := by
  induction ops generalizing s with
  | nil => rfl
  | cons x ops ih =>
      rw [applyAll_cons, applyAll_cons, h x (List.mem_cons_self ..),
        ih fun y hy => h y (List.mem_cons_of_mem _ hy)]

theorem applyAll_first {op : ω} {before after : List ω}
    (h : ∀ x ∈ before, Commutes apply x op) (s : σ) :
    applyAll apply (before ++ after) (apply op s) =
      applyAll apply (before ++ op :: after) s := by
  rw [applyAll_append, applyAll_comm h, applyAll_append, applyAll_cons]

theorem commutes_applyAll {a b : List ω} (h : ∀ x ∈ a, ∀ y ∈ b, Commutes apply x y) :
    Commutes (applyAll apply) a b := by
  intro s
  induction b generalizing s with
  | nil => rfl
  | cons y b ih =>
      rw [applyAll_cons, ih fun x hx z hz => h x hx z (List.mem_cons_of_mem _ hz),
        applyAll_comm fun x hx => h x hx y (List.mem_cons_self ..), applyAll_cons]

end JyQipai.Lib
