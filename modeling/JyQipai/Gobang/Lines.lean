import JyQipai.Gobang.Table
import JyQipai.Lib.Stretch
import Mathlib.Data.Finset.Prod
import Mathlib.Order.Interval.Finset.Nat

/-!
# Lines through the last stone

`gobang_algorithm.check_win` on a board of any size, with the lines that it returns.
-/

namespace JyQipai.Gobang

open Lib

abbrev Place := Int × Int

/-- `chessboard`, indexed from 1 on. -/
abbrev Board := Nat → Nat → Nat

def gridSteps : List Place := [(1, 0), (0, 1), (1, -1), (1, 1)]

section Code

variable (width height : Nat) (chessboard : Board)

def lineFrom (chess : Nat) (step : Place) : Nat → Int → Int → List Place
  | 0, _, _ => []
  | fuel + 1, x, y =>
      let x := x + step.1
      let y := y + step.2
      if x < 1 ∨ width < x ∨ y < 1 ∨ height < y then []
      else if chessboard x.toNat y.toNat ≠ chess then []
      else (x, y) :: lineFrom chess step fuel x y

def chessLine (x y : Nat) (step : Place) : List Place :=
  (↑x, ↑y) :: (lineFrom width height chessboard (chessboard x y) step (width + height) x y ++
    lineFrom width height chessboard (chessboard x y) (-step) (width + height) x y)

def checkWinLines (x y : Nat) : Option (List (List Place)) :=
  let lines := (gridSteps.map (chessLine width height chessboard x y)).filter fun line =>
    5 ≤ line.length
  if lines = [] then none else some lines

end Code

/-! ## Runs of stones -/

def stone (width height : Nat) (b : Board) (p : Place) : Nat :=
  if 1 ≤ p.1 ∧ p.1 ≤ width ∧ 1 ≤ p.2 ∧ p.2 ≤ height then b p.1.toNat p.2.toNat else 0

structure Run where
  step : Place
  start : Place
  length : Nat
  deriving DecidableEq

namespace Run

def place (r : Run) (k : Int) : Place := (r.start.1 + k * r.step.1, r.start.2 + k * r.step.2)

def places (r : Run) : List Place := (List.range r.length).map fun k : Nat => r.place k

end Run

section Spec

variable (width height : Nat) (b : Board)

structure EqualRun (chess : Nat) (r : Run) : Prop where
  step : r.step ∈ gridSteps
  chess_ne : chess ≠ 0
  stones : ∀ p ∈ r.places, stone width height b p = chess

structure MaximalRun (chess : Nat) (r : Run) : Prop extends EqualRun width height b chess r where
  before : stone width height b (r.place (-1)) ≠ chess
  after : stone width height b (r.place r.length) ≠ chess

def HasFive : Prop := ∃ chess r, EqualRun width height b chess r ∧ 5 ≤ r.length

def Full : Prop := ∀ x y, 1 ≤ x → x ≤ width → 1 ≤ y → y ≤ height → b x y ≠ 0

end Spec

section Line

variable {width height : Nat} {b : Board} {chess : Nat} {step : Place}

def onLine (width height : Nat) (b : Board) (chess : Nat) (step : Place) (x y : Int) (k : Nat) :
    Bool :=
  stone width height b (x + k * step.1, y + k * step.2) = chess

theorem lineFrom_eq (hchess : chess ≠ 0) (fuel : Nat) (x y : Int) :
    lineFrom width height b chess step fuel x y =
      (List.range (stretch (onLine width height b chess step x y) fuel)).map fun k : Nat =>
        (x + ((k : Int) + 1) * step.1, y + ((k : Int) + 1) * step.2) := by
  induction fuel generalizing x y with
  | zero => rfl
  | succ fuel ih =>
      have hnext : (fun k => onLine width height b chess step x y (k + 1)) =
          onLine width height b chess step (x + step.1) (y + step.2) := by
        funext k
        have hx (a c : Int) : a + ((k + 1 : Nat) : Int) * c = a + c + k * c := by
          push_cast
          ring
        unfold onLine
        rw [hx, hx]
      have hone : onLine width height b chess step x y 1 =
          decide (stone width height b (x + step.1, y + step.2) = chess) := by
        simp [onLine]
      rw [lineFrom, stretch, hone, hnext]
      unfold stone
      by_cases hin : 1 ≤ x + step.1 ∧ x + step.1 ≤ width ∧ 1 ≤ y + step.2 ∧ y + step.2 ≤ height
      · rw [if_neg (by omega), if_pos hin]
        by_cases hsame : b (x + step.1).toNat (y + step.2).toNat = chess
        · rw [if_neg (not_not.mpr hsame), if_pos (by simpa using hsame), ih, List.range_succ_eq_map,
            List.map_cons, List.map_map]
          congr 1
          · simp
          · refine List.map_congr_left fun k _ => Prod.ext ?_ ?_ <;> simp <;> ring
        · rw [if_pos hsame, if_neg (by simpa using hsame)]
          rfl
      · rw [if_pos (by omega), if_neg hin, if_neg (by simpa using hchess.symm)]
        rfl

variable {x y : Nat}

structure Stands (width height : Nat) (b : Board) (x y chess : Nat) : Prop where
  one_le_x : 1 ≤ x
  x_le : x ≤ width
  one_le_y : 1 ≤ y
  y_le : y ≤ height
  stone_eq : b x y = chess
  chess_ne : chess ≠ 0

def runThrough (width height : Nat) (b : Board) (x y chess : Nat) (step : Place) : Run where
  step := step
  start :=
    (x - stretch (onLine width height b chess (-step) x y) (width + height) * step.1,
      y - stretch (onLine width height b chess (-step) x y) (width + height) * step.2)
  length := stretch (onLine width height b chess (-step) x y) (width + height) +
    (stretch (onLine width height b chess step x y) (width + height) + 1)

theorem stone_outside {p : Place} (h : ¬(1 ≤ p.1 ∧ p.1 ≤ width ∧ 1 ≤ p.2 ∧ p.2 ≤ height)) :
    stone width height b p = 0 :=
  if_neg h

namespace Stands

variable (h : Stands width height b x y chess)

include h

theorem stone : stone width height b (x, y) = chess := by
  have hin : 1 ≤ (x : Int) ∧ (x : Int) ≤ width ∧ 1 ≤ (y : Int) ∧ (y : Int) ≤ height :=
    ⟨by exact_mod_cast h.one_le_x, by exact_mod_cast h.x_le, by exact_mod_cast h.one_le_y,
      by exact_mod_cast h.y_le⟩
  rw [Gobang.stone, if_pos hin]
  exact h.stone_eq

theorem onLine_far (hstep : step ∈ gridSteps ∨ -step ∈ gridSteps) {k : Nat} (hwidth : width ≤ k)
    (hheight : height ≤ k) : onLine width height b chess step x y k = false := by
  have hx := h.one_le_x
  have hx' := h.x_le
  have hy := h.one_le_y
  have hy' := h.y_le
  obtain ⟨dx, dy⟩ := step
  have hcases : dx = 1 ∨ dx = -1 ∨ dy = 1 ∨ dy = -1 := by
    simp only [gridSteps, Prod.neg_mk, List.mem_cons, Prod.mk.injEq, List.not_mem_nil,
      or_false] at hstep
    omega
  unfold onLine
  rw [stone_outside]
  · exact decide_eq_false h.chess_ne.symm
  · dsimp only
    rcases hcases with rfl | rfl | rfl | rfl <;> omega

theorem stretch_end (hstep : step ∈ gridSteps ∨ -step ∈ gridSteps) :
    onLine width height b chess step x y
      (stretch (onLine width height b chess step x y) (width + height) + 1) = false :=
  Lib.stretch_end (by have := h.one_le_x; have := h.x_le; omega) le_rfl
    (h.onLine_far hstep (Nat.le_add_right _ _) (Nat.le_add_left _ _))

theorem le_stretch (hstep : step ∈ gridSteps ∨ -step ∈ gridSteps) {j : Nat}
    (hall : ∀ k, 1 ≤ k → k ≤ j → onLine width height b chess step x y k) :
    j ≤ stretch (onLine width height b chess step x y) (width + height) := by
  by_contra hlt
  have hend := h.stretch_end hstep
  rw [hall _ (Nat.succ_pos _) (Nat.lt_of_not_le hlt)] at hend
  cases hend

end Stands

theorem mem_places {r : Run} {p : Place} :
    p ∈ r.places ↔ ∃ k : Nat, k < r.length ∧ r.place k = p := by
  simp only [Run.places, List.mem_map, List.mem_range]

theorem runThrough_place (k : Int) : (runThrough width height b x y chess step).place
    (stretch (onLine width height b chess (-step) x y) (width + height) + k) =
      (x + k * step.1, y + k * step.2) := by
  refine Prod.ext ?_ ?_ <;> simp only [Run.place, runThrough] <;> ring

theorem onLine_iff {k : Nat} : onLine width height b chess step x y k = true ↔
    stone width height b (x + k * step.1, y + k * step.2) = chess := by
  simp [onLine]

theorem Stands.stone_near (h : Stands width height b x y chess) {k : Int}
    (hback : -stretch (onLine width height b chess (-step) x y) (width + height) ≤ k)
    (hforth : k ≤ stretch (onLine width height b chess step x y) (width + height)) :
    Gobang.stone width height b (x + k * step.1, y + k * step.2) = chess := by
  rcases lt_trichotomy k 0 with hneg | rfl | hpos
  · obtain ⟨j, hj⟩ := Int.eq_ofNat_of_zero_le (Int.neg_nonneg_of_nonpos hneg.le)
    have hon := onLine_iff.mp (of_le_stretch (p := onLine width height b chess (-step) x y)
      (n := width + height) (k := j) (by omega) (by omega))
    rw [← hon, show k = -(j : Int) by omega]
    congr 2 <;> simp
  · rw [Int.zero_mul, Int.zero_mul, Int.add_zero, Int.add_zero]
    exact h.stone
  · obtain ⟨j, rfl⟩ := Int.eq_ofNat_of_zero_le hpos.le
    exact onLine_iff.mp (of_le_stretch (n := width + height) (by omega) (by omega))

theorem Stands.runThrough_maximal (h : Stands width height b x y chess)
    (hstep : step ∈ gridSteps) :
    MaximalRun width height b chess (runThrough width height b x y chess step) := by
  have hback := @stretch_end _ _ _ _ (-step) _ _ h (.inr (by rwa [neg_neg]))
  have hforth := h.stretch_end (.inl hstep)
  generalize hg : stretch (onLine width height b chess (-step) x y) (width + height) = g at hback
  generalize hf : stretch (onLine width height b chess step x y) (width + height) = f at hforth
  have hlength : (runThrough width height b x y chess step).length = g + (f + 1) := by
    rw [← hg, ← hf]
    rfl
  have hplace (k : Int) : (runThrough width height b x y chess step).place (g + k) =
      (x + k * step.1, y + k * step.2) := by
    rw [← hg]
    exact runThrough_place k
  refine ⟨⟨hstep, h.chess_ne, fun p hp => ?_⟩, ?_, ?_⟩
  · obtain ⟨k, hk, rfl⟩ := mem_places.mp hp
    rw [hlength] at hk
    rw [show (k : Int) = g + (k - g) by ring, hplace]
    exact h.stone_near (by rw [hg]; omega) (by rw [hf]; omega)
  · rw [show (-1 : Int) = g + -((g : Int) + 1) by ring, hplace]
    intro heq
    rw [onLine_iff.mpr] at hback
    · cases hback
    · rw [← heq]
      congr 2 <;> simp only [Prod.fst_neg, Prod.snd_neg] <;> push_cast <;> ring
  · rw [hlength, show ((g + (f + 1) : Nat) : Int) = g + ((f : Int) + 1) by push_cast; ring, hplace]
    intro heq
    rw [onLine_iff.mpr] at hforth
    · cases hforth
    · rw [← heq]
      push_cast
      rfl

theorem Stands.place_bounds (h : Stands width height b x y chess) {r : Run}
    (hr : EqualRun width height b chess r) {j : Nat} (hj : j < r.length)
    (hplace : r.place j = (↑x, ↑y)) :
    j ≤ stretch (onLine width height b chess (-r.step) x y) (width + height) ∧
      r.length - 1 - j ≤ stretch (onLine width height b chess r.step x y) (width + height) := by
  have hat (i : Nat) (hi : i < r.length) :
      Gobang.stone width height b
        (x + ((i : Int) - j) * r.step.1, y + ((i : Int) - j) * r.step.2) = chess := by
    have hx := congrArg Prod.fst hplace
    have hy := congrArg Prod.snd hplace
    rw [← hr.stones (r.place i) (mem_places.mpr ⟨i, hi, rfl⟩)]
    simp only [Run.place] at hx hy ⊢
    rw [← hx, ← hy]
    congr 2 <;> ring
  constructor
  · refine h.le_stretch (.inr (by rw [neg_neg]; exact hr.step)) fun k hk hkj => onLine_iff.mpr ?_
    rw [← hat (j - k) (by omega)]
    congr 2 <;> simp only [Prod.fst_neg, Prod.snd_neg] <;> push_cast [Nat.cast_sub hkj] <;> ring
  · refine h.le_stretch (.inl hr.step) fun k hk hkj => onLine_iff.mpr ?_
    rw [← hat (j + k) (by omega)]
    congr 2 <;> push_cast <;> ring

theorem Stands.eq_runThrough (h : Stands width height b x y chess) {r : Run}
    (hr : MaximalRun width height b chess r) {j : Nat} (hj : j < r.length)
    (hplace : r.place j = (↑x, ↑y)) : r = runThrough width height b x y chess r.step := by
  obtain ⟨hback, hforth⟩ := h.place_bounds hr.toEqualRun hj hplace
  have hx := congrArg Prod.fst hplace
  have hy := congrArg Prod.snd hplace
  simp only [Run.place] at hx hy
  have hat (k : Int) : r.place (j + k) = (x + k * r.step.1, y + k * r.step.2) := by
    refine Prod.ext ?_ ?_
    · rw [← hx]
      simp only [Run.place]
      ring
    · rw [← hy]
      simp only [Run.place]
      ring
  have hback' : stretch (onLine width height b chess (-r.step) x y) (width + height) ≤ j := by
    by_contra hlt
    refine hr.before ?_
    rw [show (-1 : Int) = j + -((j : Int) + 1) by ring, hat]
    exact h.stone_near (by omega) (by omega)
  have hforth' : stretch (onLine width height b chess r.step x y) (width + height) ≤
      r.length - 1 - j := by
    by_contra hlt
    refine hr.after ?_
    rw [show (r.length : Int) = j + ((r.length : Int) - j) by ring, hat]
    exact h.stone_near (by omega) (by omega)
  have hj' := le_antisymm hback hback'
  have hlength : r.length = (runThrough width height b x y chess r.step).length := by
    simp only [runThrough]
    omega
  obtain ⟨rstep, ⟨startX, startY⟩, rlength⟩ := r
  simp only [runThrough] at hx hy hlength hj' ⊢
  rw [Run.mk.injEq]
  refine ⟨rfl, Prod.ext ?_ ?_, hlength⟩
  · dsimp only
    rw [← hj']
    linarith
  · dsimp only
    rw [← hj']
    linarith

theorem chessLine_perm (hstones : Stands width height b x y chess) :
    (chessLine width height b x y step).Perm (runThrough width height b x y chess step).places := by
  have hchess : b x y = chess := hstones.stone_eq
  have hback := @lineFrom_eq width height b chess (-step) hstones.chess_ne (width + height) x y
  have hforth := @lineFrom_eq width height b chess step hstones.chess_ne (width + height) x y
  have hplace := @runThrough_place width height b chess step x y
  rw [chessLine, hchess, hback, hforth, Run.places]
  generalize hg : stretch (onLine width height b chess (-step) x y) (width + height) = g at hplace ⊢
  generalize hf : stretch (onLine width height b chess step x y) (width + height) = f
  have hlength : (runThrough width height b x y chess step).length = g + (f + 1) := by
    rw [← hg, ← hf]
    rfl
  have hbefore : (List.range g).map (fun k : Nat =>
      (runThrough width height b x y chess step).place k) =
      ((List.range g).map fun k : Nat => ((x : Int) + ((k : Int) + 1) * (-step).1,
        (y : Int) + ((k : Int) + 1) * (-step).2)).reverse := by
    refine List.ext_getElem (by simp) fun i hi _ => ?_
    rw [List.length_map, List.length_range] at hi
    rw [List.getElem_reverse, List.getElem_map, List.getElem_map, List.getElem_range,
      List.getElem_range, show ((i : Nat) : Int) = g + ((i : Int) - g) by ring, hplace,
      List.length_map, List.length_range]
    refine Prod.ext ?_ ?_ <;> simp only [Prod.fst_neg, Prod.snd_neg] <;>
      push_cast [Nat.cast_sub (show 1 ≤ g by omega), Nat.cast_sub (show i ≤ g - 1 by omega)] <;>
      ring
  have hafter : (List.range (f + 1)).map ((fun k : Nat =>
      (runThrough width height b x y chess step).place k) ∘ fun k => g + k) =
      (↑x, ↑y) :: (List.range f).map fun k : Nat => ((x : Int) + ((k : Int) + 1) * step.1,
        (y : Int) + ((k : Int) + 1) * step.2) := by
    have hone (k : Nat) : ((fun k : Nat => (runThrough width height b x y chess step).place k) ∘
        fun k => g + k) k = ((x : Int) + k * step.1, (y : Int) + k * step.2) := by
      rw [← hplace, Function.comp_apply]
      push_cast
      rfl
    rw [List.range_succ_eq_map, List.map_cons, List.map_map, hone]
    refine congrArg₂ List.cons (Prod.ext ?_ ?_) (List.map_congr_left fun k _ => ?_)
    · simp
    · simp
    · rw [Function.comp_apply, hone]
      push_cast
      rfl
  rw [hlength, List.range_add, List.map_append, List.map_map, hbefore, hafter]
  refine (List.Perm.cons _ List.perm_append_comm).trans ?_
  refine ((List.reverse_perm _).symm.append_right _ |>.cons _).trans ?_
  exact List.perm_middle.symm

theorem length_chessLine (h : Stands width height b x y chess) :
    (chessLine width height b x y step).length =
      (runThrough width height b x y chess step).length := by
  rw [(chessLine_perm h).length_eq, Run.places, List.length_map, List.length_range]

def longRuns (width height : Nat) (b : Board) (x y chess : Nat) : List Run :=
  (gridSteps.map (runThrough width height b x y chess)).filter fun r => 5 ≤ r.length

theorem forall₂_filter_map {α β γ : Type} {R : β → γ → Prop} {f : α → β} {g : α → γ}
    {p : β → Bool} {q : γ → Bool} {l : List α} (hR : ∀ a ∈ l, R (f a) (g a))
    (hpq : ∀ a ∈ l, p (f a) = q (g a)) :
    List.Forall₂ R ((l.map f).filter p) ((l.map g).filter q) := by
  induction l with
  | nil => exact .nil
  | cons a l ih =>
      have hrest := ih (fun c hc => hR c (List.mem_cons_of_mem a hc))
        fun c hc => hpq c (List.mem_cons_of_mem a hc)
      have hhead := hpq a List.mem_cons_self
      rw [List.map_cons, List.map_cons, List.filter_cons, List.filter_cons, hhead]
      split
      · exact .cons (hR a List.mem_cons_self) hrest
      · exact hrest

theorem Stands.mem_longRuns (h : Stands width height b x y chess) {r : Run} :
    r ∈ longRuns width height b x y chess ↔
      MaximalRun width height b chess r ∧ 5 ≤ r.length ∧ (↑x, ↑y) ∈ r.places := by
  simp only [longRuns, List.mem_filter, List.mem_map, decide_eq_true_eq]
  constructor
  · rintro ⟨⟨step, hstep, rfl⟩, hlength⟩
    refine ⟨h.runThrough_maximal hstep, hlength, mem_places.mpr
      ⟨stretch (onLine width height b chess (-step) x y) (width + height), ?_, ?_⟩⟩
    · simp only [runThrough]
      omega
    · simpa using @runThrough_place width height b chess step x y 0
  · rintro ⟨hr, hlength, hin⟩
    obtain ⟨j, hj, hplace⟩ := mem_places.mp hin
    exact ⟨⟨r.step, hr.step, (h.eq_runThrough hr hj hplace).symm⟩, hlength⟩

theorem longRuns_nodup : (longRuns width height b x y chess).Nodup := by
  refine List.Nodup.filter _ (List.Nodup.of_map Run.step ?_)
  rw [List.map_map]
  exact (List.map_id _).symm ▸ (by decide : gridSteps.Nodup)

end Line

/-! ## The last stone of a game -/

structure Move where
  x : Nat
  y : Nat
  chess : Nat

section Game

variable {width height : Nat} {b : Board} {m : Move}

def Move.put (m : Move) (b : Board) : Board :=
  Function.update b m.x (Function.update (b m.x) m.y m.chess)

@[mk_iff]
structure Accepts (width height : Nat) (b : Board) (m : Move) : Prop where
  one_le_x : 1 ≤ m.x
  x_le : m.x ≤ width
  one_le_y : 1 ≤ m.y
  y_le : m.y ≤ height
  free : b m.x m.y = 0
  chess_ne : m.chess ≠ 0

def boardAfter (ms : List Move) : Board := ms.foldl (fun b m => m.put b) fun _ _ => 0

inductive Undecided (width height : Nat) : List Move → Prop
  | nil : Undecided width height []
  | move {ms : List Move} {m : Move} (h : Undecided width height ms)
      (hm : Accepts width height (boardAfter ms) m)
      (hwin : checkWinLines width height (boardAfter (ms ++ [m])) m.x m.y = none) :
      Undecided width height (ms ++ [m])

theorem boardAfter_concat (ms : List Move) (m : Move) :
    boardAfter (ms ++ [m]) = m.put (boardAfter ms) := by
  rw [boardAfter, List.foldl_append]
  rfl

theorem put_self : m.put b m.x m.y = m.chess := by
  rw [Move.put, Function.update_self, Function.update_self]

theorem put_of_ne {x y : Nat} (hne : (x, y) ≠ (m.x, m.y)) : m.put b x y = b x y := by
  rw [Move.put]
  by_cases hx : x = m.x
  · subst hx
    rw [Function.update_self, Function.update_of_ne fun hy => hne (by rw [hy])]
  · rw [Function.update_of_ne hx]

theorem stone_put {p : Place} (hp : p ≠ (↑m.x, ↑m.y)) :
    stone width height (m.put b) p = stone width height b p := by
  unfold stone
  split
  · rename_i hin
    refine put_of_ne fun heq => hp (Prod.ext ?_ ?_)
    · have := congrArg Prod.fst heq
      dsimp only at this ⊢
      omega
    · have := congrArg Prod.snd heq
      dsimp only at this ⊢
      omega
  · rfl

theorem Accepts.stands (hm : Accepts width height b m) :
    Stands width height (m.put b) m.x m.y m.chess :=
  ⟨hm.one_le_x, hm.x_le, hm.one_le_y, hm.y_le, put_self, hm.chess_ne⟩

theorem Accepts.hasFive_iff (hm : Accepts width height b m) (hb : ¬HasFive width height b) :
    HasFive width height (m.put b) ↔ longRuns width height (m.put b) m.x m.y m.chess ≠ [] := by
  constructor
  · rintro ⟨chess, r, hr, hlength⟩
    have hin : (↑m.x, ↑m.y) ∈ r.places := by
      by_contra hout
      refine hb ⟨chess, r, ⟨hr.step, hr.chess_ne, fun p hp => ?_⟩, hlength⟩
      rw [← stone_put fun heq => hout (heq ▸ hp)]
      exact hr.stones p hp
    obtain rfl : m.chess = chess := hm.stands.stone.symm.trans (hr.stones _ hin)
    obtain ⟨j, hj, hplace⟩ := mem_places.mp hin
    obtain ⟨hback, hforth⟩ := hm.stands.place_bounds hr hj hplace
    refine List.ne_nil_of_mem (List.mem_filter.mpr ⟨List.mem_map_of_mem hr.step, ?_⟩)
    rw [decide_eq_true_eq]
    simp only [runThrough]
    omega
  · intro hne
    obtain ⟨r, hr⟩ := List.exists_mem_of_ne_nil _ hne
    obtain ⟨hmax, hlength, -⟩ := hm.stands.mem_longRuns.mp hr
    exact ⟨m.chess, r, hmax.toEqualRun, hlength⟩

theorem Accepts.forall₂_lines (hm : Accepts width height b m) :
    List.Forall₂ (fun line r => line.Perm (Run.places r))
      ((gridSteps.map (chessLine width height (m.put b) m.x m.y)).filter fun line =>
        5 ≤ line.length)
      (longRuns width height (m.put b) m.x m.y m.chess) := by
  refine forall₂_filter_map (fun step _ => chessLine_perm hm.stands) fun step _ => ?_
  rw [length_chessLine hm.stands]

theorem Accepts.checkWinLines_eq_none (hm : Accepts width height b m) :
    checkWinLines width height (m.put b) m.x m.y = none ↔
      longRuns width height (m.put b) m.x m.y m.chess = [] := by
  have hnil : (gridSteps.map (chessLine width height (m.put b) m.x m.y)).filter (fun line =>
      5 ≤ line.length) = [] ↔ longRuns width height (m.put b) m.x m.y m.chess = [] := by
    rw [← List.length_eq_zero_iff, hm.forall₂_lines.length_eq, List.length_eq_zero_iff]
  rw [checkWinLines, ← hnil]
  split
  · exact iff_of_true rfl ‹_›
  · exact iff_of_false (Option.some_ne_none _) ‹_›

theorem not_hasFive_empty : ¬HasFive width height fun _ _ => 0 := by
  rintro ⟨chess, r, hr, hlength⟩
  have hzero := hr.stones (r.place 0) (mem_places.mpr ⟨0, by omega, rfl⟩)
  refine hr.chess_ne (hzero.symm.trans ?_)
  unfold stone
  split <;> rfl

theorem Undecided.not_hasFive {ms : List Move} (h : Undecided width height ms) :
    ¬HasFive width height (boardAfter ms) := by
  induction h with
  | nil => exact not_hasFive_empty
  | @move ms m h hm hwin ih =>
      rw [boardAfter_concat] at hwin ⊢
      rw [hm.hasFive_iff ih, not_not]
      exact hm.checkWinLines_eq_none.mp hwin

/-! ## A full board -/

def taken (width height : Nat) (b : Board) : Finset (Nat × Nat) :=
  (Finset.Icc 1 width ×ˢ Finset.Icc 1 height).filter fun p => b p.1 p.2 ≠ 0

theorem full_iff_card : Full width height b ↔ (taken width height b).card = height * width := by
  have hcard : (Finset.Icc 1 width ×ˢ Finset.Icc 1 height).card = height * width := by
    rw [Finset.card_product, Nat.card_Icc, Nat.card_Icc, Nat.add_sub_cancel, Nat.add_sub_cancel,
      Nat.mul_comm]
  rw [← hcard, taken, Finset.card_filter_eq_iff]
  constructor
  · intro h p hp
    simp only [Finset.mem_product, Finset.mem_Icc] at hp
    exact h p.1 p.2 hp.1.1 hp.1.2 hp.2.1 hp.2.2
  · intro h x y hx hx' hy hy'
    exact h (x, y) (Finset.mem_product.mpr ⟨Finset.mem_Icc.mpr ⟨hx, hx'⟩,
      Finset.mem_Icc.mpr ⟨hy, hy'⟩⟩)

theorem Accepts.card_taken (hm : Accepts width height b m) :
    (taken width height (m.put b)).card = (taken width height b).card + 1 := by
  have hout : (m.x, m.y) ∉ taken width height b := fun hin =>
    (Finset.mem_filter.mp hin).2 hm.free
  rw [← Finset.card_insert_of_notMem hout]
  congr 1
  ext p
  rw [Finset.mem_insert]
  by_cases hp : p = (m.x, m.y)
  · subst hp
    refine iff_of_true (Finset.mem_filter.mpr ⟨?_, ?_⟩) (.inl rfl)
    · exact Finset.mem_product.mpr ⟨Finset.mem_Icc.mpr ⟨hm.one_le_x, hm.x_le⟩,
        Finset.mem_Icc.mpr ⟨hm.one_le_y, hm.y_le⟩⟩
    · dsimp only
      rw [put_self]
      exact hm.chess_ne
  · rw [taken, taken, Finset.mem_filter, Finset.mem_filter, put_of_ne hp, or_iff_right hp]

theorem Undecided.card_taken {ms : List Move} (h : Undecided width height ms) :
    (taken width height (boardAfter ms)).card = ms.length := by
  induction h with
  | nil => exact Finset.card_eq_zero.mpr (Finset.filter_eq_empty_iff.mpr fun p _ hp => hp rfl)
  | @move ms m h hm hwin ih =>
      rw [boardAfter_concat, hm.card_taken, ih, List.length_append, List.length_singleton]

end Game

end JyQipai.Gobang
