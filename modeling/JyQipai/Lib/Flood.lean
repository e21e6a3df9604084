import Mathlib.Data.Finset.Card
import Mathlib.Logic.Relation

/-!
# Flooding along runs

Every cell lies on one run in each of two directions.  A flood from a cell visits the run
through it; from each new cell of the run it floods in the other direction, and then the cell
is done.  Runs are measured when they are visited, and the cells that are done may be missing
from what is measured.  Still a flood finds exactly the component of its cell.
-/

namespace JyQipai.Lib

/-- `run done d c` is the run that is measured at `c` in direction `d` once the cells `done` are
done. -/
structure Runs (α ι : Type) where
  run : List α → ι → α → List α
  turn : ι → ι
  two : ∀ d e, e = d ∨ e = turn d
  sub : ∀ {done d c b}, c ∉ done → b ∈ run done d c → b ∈ run [] d c
  whole : ∀ {done d c b}, (∀ a ∈ run [] d c, a ∉ done) → b ∈ run [] d c → b ∈ run done d c
  self : ∀ {d c b}, b ∈ run [] d c → c ∈ run [] d c
  same : ∀ {d b c}, b ∈ run [] d c → run [] d b = run [] d c

structure Trail (α : Type) where
  seen : List α
  done : List α

section

variable {α ι : Type}

def Runs.Linked (r : Runs α ι) (a b : α) : Prop := ∃ d, b ∈ r.run [] d a

def Runs.Component (r : Runs α ι) (c b : α) : Prop := Relation.TransGen r.Linked c b

variable {r : Runs α ι} {U : Finset α} {c b : α} {d : ι}

theorem Runs.Linked.symm (h : r.Linked b c) : r.Linked c b := by
  obtain ⟨d, hd⟩ := h
  refine ⟨d, ?_⟩
  rw [r.same hd]
  exact r.self hd

theorem Runs.Component.symm (h : r.Component b c) : r.Component c b := by
  induction h with
  | single h => exact .single h.symm
  | tail _ h ih => exact .trans (.single h.symm) ih

def Runs.Closed (r : Runs α ι) (cells : List α) : Prop :=
  ∀ b c, b ∈ cells → r.Linked b c → c ∈ cells

theorem Runs.Closed.component {cells : List α} (h : r.Closed cells) (hb : b ∈ cells)
    (hc : r.Component b c) : c ∈ cells := by
  induction hc with
  | single hlink => exact h _ _ hb hlink
  | tail _ hlink ih => exact h _ _ ih hlink

theorem Runs.Closed.component_iff {r' : Runs α ι} {cells : List α} (h : r.Closed cells)
    (hrun : ∀ d c, r'.run [] d c = r.run cells d c) (hc : c ∉ cells) :
    r'.Component c b ↔ r.Component c b := by
  have hlink : ∀ {a b}, a ∉ cells → (r'.Linked a b ↔ r.Linked a b) := by
    intro a b ha
    refine exists_congr fun d => ?_
    rw [hrun]
    exact ⟨r.sub ha, r.whole fun e he hmem => ha (h e a hmem (Runs.Linked.symm ⟨d, he⟩))⟩
  have hout : ∀ {a}, r.Component c a → a ∉ cells := fun ha hmem => hc (h.component hmem ha.symm)
  constructor
  · intro hb
    induction hb with
    | single hb => exact .single ((hlink hc).mp hb)
    | tail _ hb ih => exact .tail ih ((hlink (hout ih)).mp hb)
  · intro hb
    induction hb with
    | single hb => exact .single ((hlink hc).mpr hb)
    | tail hb' hb ih => exact .tail ih ((hlink (hout hb')).mpr hb)

/-! ## What a flood leaves alone -/

structure Extends (P : α → Prop) (s s' : Trail α) : Prop where
  seen : ∃ l, s'.seen = s.seen ++ l ∧ ∀ b ∈ l, P b
  nodup : s.seen.Nodup → s'.seen.Nodup
  done : ∀ b, b ∈ s'.done ↔ b ∈ s.done ∨ b ∈ s'.seen ∧ b ∉ s.seen

variable {P : α → Prop} {s s' s'' : Trail α}

theorem Extends.mem (h : Extends P s s') (hb : b ∈ s.seen) : b ∈ s'.seen := by
  obtain ⟨l, hl, -⟩ := h.seen
  rw [hl]
  exact List.mem_append_left l hb

theorem Extends.new (h : Extends P s s') (hb : b ∈ s'.seen) : b ∈ s.seen ∨ P b := by
  obtain ⟨l, hl, hP⟩ := h.seen
  rw [hl, List.mem_append] at hb
  exact hb.imp_right (hP b)

theorem Extends.refl : Extends P s s :=
  ⟨⟨[], (List.append_nil _).symm, fun _ h => absurd h List.not_mem_nil⟩, id, fun _ => by simp⟩

theorem Extends.trans (h : Extends P s s') (h' : Extends P s' s'') : Extends P s s'' where
  seen := by
    obtain ⟨l, hl, hP⟩ := h.seen
    obtain ⟨l', hl', hP'⟩ := h'.seen
    refine ⟨l ++ l', by rw [hl', hl, List.append_assoc], fun b hb => ?_⟩
    exact (List.mem_append.mp hb).elim (hP b) (hP' b)
  nodup := h'.nodup ∘ h.nodup
  done b := by
    rw [h'.done, h.done]
    have hmem := h.mem (b := b)
    have hmem' := h'.mem (b := b)
    tauto

theorem Extends.mono {Q : α → Prop} (h : Extends P s s') (hPQ : ∀ b, P b → Q b) :
    Extends Q s s' where
  seen := by
    obtain ⟨l, hl, hP⟩ := h.seen
    exact ⟨l, hl, fun b hb => hPQ b (hP b hb)⟩
  nodup := h.nodup
  done := h.done

theorem Extends.visit (hb : b ∉ s.seen) (hP : P b)
    (h : Extends P { s with seen := s.seen ++ [b] } s') :
    Extends P s { s' with done := b :: s'.done } where
  seen := by
    obtain ⟨l, hl, hPl⟩ := h.seen
    refine ⟨b :: l, by rw [hl, List.append_assoc, List.singleton_append], fun a ha => ?_⟩
    rcases List.mem_cons.mp ha with rfl | ha
    · exact hP
    · exact hPl a ha
  nodup hnodup := h.nodup (List.nodup_append.mpr
    ⟨hnodup, List.nodup_singleton b, fun a ha c hc heq =>
      hb (List.mem_singleton.mp hc ▸ heq ▸ ha)⟩)
  done a := by
    have hmem : b ∈ s'.seen := h.mem (List.mem_append_right _ (List.mem_singleton_self b))
    have hdone := h.done a
    simp only [List.mem_append, List.mem_singleton] at hdone
    rw [List.mem_cons, hdone]
    constructor
    · rintro (rfl | h | h)
      · exact .inr ⟨hmem, hb⟩
      · exact .inl h
      · exact .inr ⟨h.1, fun hs => h.2 (.inl hs)⟩
    · rintro (h | ⟨ha, hs⟩)
      · exact .inr (.inl h)
      · by_cases hab : a = b
        · exact .inl hab
        · exact .inr (.inr ⟨ha, by tauto⟩)

/-! ## The runs that were found -/

def Settled (r : Runs α ι) (s : Trail α) (d : ι) (c : α) : Prop := ∀ b ∈ r.run [] d c, b ∈ s.seen

/-- The runs through the cells that are done were found, but for those the flood is still
walking along. -/
structure Kept (r : Runs α ι) (walking : ι → α → Prop) (s : Trail α) : Prop where
  sub : ∀ b ∈ s.done, b ∈ s.seen
  runs : ∀ b ∈ s.done, ∀ d, Settled r s d b ∨ walking d b

def Along (r : Runs α ι) (walking : ι → α → Prop) : Prop :=
  ∀ {d b c}, b ∈ r.run [] d c → walking d b → walking d c

variable {walking : ι → α → Prop}

theorem Settled.mono (h : Settled r s d c) (hext : Extends P s s') : Settled r s' d c :=
  fun b hb => hext.mem (h b hb)

theorem Settled.along (hb : b ∈ r.run [] d c) (h : Settled r s d b) : Settled r s d c := by
  intro a ha
  rw [← r.same hb] at ha
  exact h a ha

theorem Kept.component (hkept : Kept r (fun _ _ => False) s)
    (hext : Extends (r.Component c) ⟨[], []⟩ s) (hc : c ∈ s.seen ∨ ∀ d b, b ∉ r.run [] d c) :
    s.seen.Nodup ∧ (∀ b, b ∈ s.seen ↔ r.Component c b) ∧ ∀ b, b ∈ s.done ↔ b ∈ s.seen := by
  have hdone : ∀ b, b ∈ s.done ↔ b ∈ s.seen := fun b => by
    rw [hext.done]
    simp
  have hstep : ∀ a b, a ∈ s.seen → r.Linked a b → b ∈ s.seen := by
    rintro a b ha ⟨d, hd⟩
    exact (hkept.runs a ((hdone a).mpr ha) d).resolve_right id b hd
  refine ⟨hext.nodup List.nodup_nil, fun b => ⟨fun hb => ?_, fun hb => ?_⟩, hdone⟩
  · exact (hext.new hb).resolve_left List.not_mem_nil
  · rcases hc with hc | hc
    · induction hb with
      | single h => exact hstep c _ hc h
      | tail _ h ih => exact hstep _ _ ih h
    · obtain ⟨a, ⟨d, hd⟩, -⟩ := Relation.TransGen.head'_iff.mp hb
      exact absurd hd (hc d a)

/-! ## Termination -/

variable [DecidableEq α]

/-- What happens to one cell of a run; `flood` is what a new cell starts. -/
def visit (flood : α → Trail α → Option (Trail α)) (s : Trail α) (b : α) : Option (Trail α) :=
  if b ∈ s.seen then some s
  else (flood b { s with seen := s.seen ++ [b] }).map fun s => { s with done := b :: s.done }

def flood (r : Runs α ι) : Nat → ι → α → Trail α → Option (Trail α)
  | 0, _, _, _ => none
  | fuel + 1, d, c, s => (r.run s.done d c).foldlM (visit (flood r fuel (r.turn d))) s

def unseen (U : Finset α) (s : Trail α) : Finset α := U.filter (· ∉ s.seen)

theorem Extends.unseen_le (h : Extends P s s') : (unseen U s').card ≤ (unseen U s).card := by
  apply Finset.card_le_card
  intro b hb
  rw [unseen, Finset.mem_filter] at hb ⊢
  exact ⟨hb.1, fun hs => hb.2 (h.mem hs)⟩

theorem unseen_lt (hU : b ∈ U) (hb : b ∉ s.seen) :
    (unseen U { s with seen := s.seen ++ [b] }).card < (unseen U s).card := by
  apply Finset.card_lt_card
  rw [Finset.ssubset_iff_of_subset]
  · exact ⟨b, by simp [unseen, hU, hb], by simp [unseen]⟩
  · intro a ha
    rw [unseen, Finset.mem_filter] at ha ⊢
    exact ⟨ha.1, fun hs => ha.2 (List.mem_append_left _ hs)⟩

/-! ## What a flood finds -/

def Floods (r : Runs α ι) (U : Finset α) (fuel : Nat) (d : ι) : Prop :=
  ∀ {walking : ι → α → Prop} {c : α} {s : Trail α}, Along r walking → Kept r walking s →
    c ∉ s.done → (unseen U s).card < fuel →
    ∃ s', flood r fuel d c s = some s' ∧ Extends (r.Component c) s s' ∧ Kept r walking s' ∧
      (Settled r s' d c ∨ walking d c)

theorem visit_spec {fuel : Nat} (hfloods : Floods r U fuel (r.turn d)) (hwalk : Along r walking)
    (hkept : Kept r walking s) (hU : b ∈ U) (hb : Settled r s d b ∨ walking d b)
    (hfuel : (unseen U s).card ≤ fuel) :
    ∃ s', visit (flood r fuel (r.turn d)) s b = some s' ∧ b ∈ s'.seen ∧
      Extends (fun a => a = b ∨ r.Component b a) s s' ∧ Kept r walking s' := by
  rw [visit]
  split_ifs with hseen
  · exact ⟨s, rfl, hseen, .refl, hkept⟩
  · have hkept' : Kept r walking { s with seen := s.seen ++ [b] } := by
      refine ⟨fun a ha => List.mem_append_left _ (hkept.sub a ha), fun a ha e => ?_⟩
      exact (hkept.runs a ha e).imp_left fun h c hc => List.mem_append_left _ (h c hc)
    obtain ⟨s', hs', hext, hkept', hcross⟩ := hfloods hwalk hkept'
      (fun h => hseen (hkept.sub b h)) ((unseen_lt hU hseen).trans_le hfuel)
    have hmem : b ∈ s'.seen := hext.mem (List.mem_append_right _ (List.mem_singleton_self b))
    have hall := (hext.mono fun a => Or.inr (a := a = b)).visit hseen (.inl rfl)
    refine ⟨{ s' with done := b :: s'.done }, by rw [hs', Option.map_some], hmem, hall, ?_, ?_⟩
    · exact fun a ha => (List.mem_cons.mp ha).elim (fun h => h ▸ hmem) (hkept'.sub a)
    · intro a ha e
      rcases List.mem_cons.mp ha with rfl | ha
      · rcases r.two d e with rfl | rfl
        · exact hb.imp_left fun h => h.mono hall
        · exact hcross
      · exact hkept'.runs a ha e

theorem loop_spec {fuel : Nat} (hfloods : Floods r U fuel (r.turn d)) (hwalk : Along r walking)
    (hU : ∀ b ∈ r.run [] d c, b ∈ U) {l : List α} (hl : ∀ b ∈ l, b ∈ r.run [] d c)
    (hkept : Kept r walking s) (hc : ∀ b ∈ l, Settled r s d b ∨ walking d b)
    (hfuel : (unseen U s).card ≤ fuel) :
    ∃ s', l.foldlM (visit (flood r fuel (r.turn d))) s = some s' ∧ (∀ b ∈ l, b ∈ s'.seen) ∧
      Extends (r.Component c) s s' ∧ Kept r walking s' := by
  induction l generalizing s with
  | nil => exact ⟨s, rfl, fun _ h => absurd h List.not_mem_nil, .refl, hkept⟩
  | cons b l ih =>
      have hb : b ∈ r.run [] d c := hl b List.mem_cons_self
      obtain ⟨s₁, hs₁, hmem, hext₁, hkept₁⟩ := visit_spec hfloods hwalk hkept (hU b hb)
        (hc b List.mem_cons_self) hfuel
      have hc₁ : ∀ a ∈ l, Settled r s₁ d a ∨ walking d a := fun a ha =>
        (hc a (List.mem_cons_of_mem b ha)).imp_left fun h => h.mono hext₁
      obtain ⟨s₂, hs₂, hseen, hext₂, hkept₂⟩ := ih (fun a ha => hl a (List.mem_cons_of_mem b ha))
        hkept₁ hc₁ (hext₁.unseen_le.trans hfuel)
      refine ⟨s₂, ?_, ?_, ?_, hkept₂⟩
      · rw [List.foldlM_cons, hs₁]
        exact hs₂
      · intro a ha
        exact (List.mem_cons.mp ha).elim (fun h => h ▸ hext₂.mem hmem) (hseen a)
      · refine Extends.trans (hext₁.mono fun a ha => ?_) hext₂
        have hlink : r.Component c b := .single ⟨d, hb⟩
        exact ha.elim (fun h => h ▸ hlink) fun h => Relation.TransGen.trans hlink h

theorem floods (hU : ∀ d c, ∀ b ∈ r.run [] d c, b ∈ U) (fuel : Nat) (d : ι) :
    Floods r U fuel d := by
  induction fuel generalizing d with
  | zero => exact fun _ _ _ h => absurd h (Nat.not_lt_zero _)
  | succ fuel ih =>
      intro walking c s hwalk hkept hc hfuel
      have hsub : ∀ b ∈ r.run s.done d c, b ∈ r.run [] d c := fun b => r.sub hc
      by_cases hwhole : ∀ a ∈ r.run [] d c, a ∉ s.done
      · let walking' : ι → α → Prop := fun e b => walking e b ∨ e = d ∧ b ∈ r.run [] d c
        have hwalk' : Along r walking' := by
          rintro e b a hba (h | ⟨rfl, hb⟩)
          · exact .inl (hwalk hba h)
          · refine .inr ⟨rfl, ?_⟩
            rw [← r.same hb, r.same hba]
            exact r.self hba
        have hkept' : Kept r walking' s :=
          ⟨hkept.sub, fun b hb e => (hkept.runs b hb e).imp_right Or.inl⟩
        obtain ⟨s', hs', hseen, hext, hkept'⟩ := loop_spec (ih (r.turn d)) hwalk' (hU d c) hsub
          hkept' (fun b hb => .inr (.inr ⟨rfl, hsub b hb⟩)) (Nat.lt_succ_iff.mp hfuel)
        have hsettled : Settled r s' d c := fun b hb => hseen b (r.whole hwhole hb)
        refine ⟨s', hs', hext, ⟨hkept'.sub, fun b hb e => ?_⟩, .inl hsettled⟩
        rcases hkept'.runs b hb e with h | h | ⟨rfl, hbc⟩
        · exact .inl h
        · exact .inr h
        · exact .inl (hsettled.along (by rw [r.same hbc]; exact r.self hbc))
      · push Not at hwhole
        obtain ⟨a, ha, hdone⟩ := hwhole
        -- the run through a cell that is done was found or is walked along by a caller
        have hknown : Settled r s d c ∨ walking d c :=
          (hkept.runs a hdone d).imp (Settled.along ha) (hwalk ha)
        have hback : ∀ b ∈ r.run s.done d c, Settled r s d b ∨ walking d b := by
          intro b hb
          have hcb : c ∈ r.run [] d b := by
            rw [r.same (hsub b hb)]
            exact r.self (hsub b hb)
          exact hknown.imp (Settled.along hcb) (hwalk hcb)
        obtain ⟨s', hs', -, hext, hkept'⟩ := loop_spec (ih (r.turn d)) hwalk (hU d c) hsub hkept
          hback (Nat.lt_succ_iff.mp hfuel)
        exact ⟨s', hs', hext, hkept', hknown.imp_left fun h => h.mono hext⟩

/-- A flood in direction `d` and then, unless its cell was found, in the other one -/
def floodBoth (r : Runs α ι) (fuel : Nat) (d : ι) (c : α) : Option (Trail α) := do
  let s ← flood r fuel d c ⟨[], []⟩
  if c ∈ s.seen then some s else flood r fuel (r.turn d) c s

theorem floodBoth_spec (hU : ∀ d c, ∀ b ∈ r.run [] d c, b ∈ U) {fuel : Nat} (hfuel : U.card < fuel)
    (d : ι) (c : α) :
    ∃ s, floodBoth r fuel d c = some s ∧ s.seen.Nodup ∧ (∀ b, b ∈ s.seen ↔ r.Component c b) ∧
      ∀ b, b ∈ s.done ↔ b ∈ s.seen := by
  have hkept : Kept r (fun _ _ => False) (⟨[], []⟩ : Trail α) :=
    ⟨fun _ h => h, fun _ h => absurd h List.not_mem_nil⟩
  have hunseen (s : Trail α) : (unseen U s).card < fuel :=
    (Finset.card_le_card (Finset.filter_subset _ U)).trans_lt hfuel
  obtain ⟨s, hs, hext, hkept, hrun⟩ := floods hU fuel d (fun _ h => h) hkept
    List.not_mem_nil (hunseen _)
  rw [floodBoth, hs, Option.bind_eq_bind, Option.bind_some]
  split_ifs with hseen
  · exact ⟨s, rfl, hkept.component hext (.inl hseen)⟩
  · have hnot : c ∉ s.done := fun h => hseen (hkept.sub c h)
    obtain ⟨s', hs', hext', hkept', hcross⟩ := floods hU fuel (r.turn d) (fun _ h => h) hkept
      hnot (hunseen _)
    refine ⟨s', hs', hkept'.component (hext.trans hext') ?_⟩
    by_cases hmem : c ∈ s'.seen
    · exact .inl hmem
    · refine .inr fun e b hb => ?_
      rcases r.two d e with rfl | rfl
      · exact hmem (hext'.mem (hrun.resolve_right id c (r.self hb)))
      · exact hmem (hcross.resolve_right id c (r.self hb))

end

end JyQipai.Lib
