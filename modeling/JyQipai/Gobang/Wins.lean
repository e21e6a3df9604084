import JyQipai.Gobang.Lines

/-!
# How a game is won

As long as no earlier move has won, the lines through the last stone tell whether five equal
stones are in a row anywhere on the board.
-/

namespace JyQipai.Gobang

open Lib

section Board

variable {width height : Nat} {ms : List Move} {m : Move}

/-- The lines are the maximal runs of five or more through the last stone. -/
def LinesExact (width height : Nat) (b : Board) (m : Move) (lines : List (List Place)) : Prop :=
  ∃ runs : List Run, runs.Nodup ∧
    (∀ r, r ∈ runs ↔
      MaximalRun width height b m.chess r ∧ 5 ≤ r.length ∧ (↑m.x, ↑m.y) ∈ r.places) ∧
    List.Forall₂ (fun line r => line.Perm r.places) lines runs

/-- `CMD.xiaqi` once the stone is on the board: what ends the game, if it ends. -/
def judge (width height : Nat) (ms : List Move) (m : Move) : Option SettleType :=
  if (checkWinLines width height (boardAfter (ms ++ [m])) m.x m.y).isSome then some .nor
  else if (ms ++ [m]).length = height * width then some .qiPanXiaMan
  else none

structure Recognised (width height : Nat) (ms : List Move) (m : Move) : Prop where
  win : (checkWinLines width height (boardAfter (ms ++ [m])) m.x m.y).isSome ↔
    HasFive width height (boardAfter (ms ++ [m]))
  lines : ∀ lines, checkWinLines width height (boardAfter (ms ++ [m])) m.x m.y = some lines →
    LinesExact width height (boardAfter (ms ++ [m])) m lines
  draw : judge width height ms m = some .qiPanXiaMan ↔
    Full width height (boardAfter (ms ++ [m])) ∧ ¬HasFive width height (boardAfter (ms ++ [m]))

theorem Accepts.linesExact {b : Board} {lines : List (List Place)}
    (hm : Accepts width height b m)
    (hlines : checkWinLines width height (m.put b) m.x m.y = some lines) :
    LinesExact width height (m.put b) m lines := by
  rw [checkWinLines] at hlines
  split at hlines
  · cases hlines
  · cases hlines
    exact ⟨_, longRuns_nodup, fun r => hm.stands.mem_longRuns, hm.forall₂_lines⟩

variable (h : Undecided width height ms) (hm : Accepts width height (boardAfter ms) m)

include h hm

theorem isSome_checkWinLines :
    (checkWinLines width height (boardAfter (ms ++ [m])) m.x m.y).isSome ↔
      HasFive width height (boardAfter (ms ++ [m])) := by
  rw [boardAfter_concat, hm.hasFive_iff h.not_hasFive, ← not_iff_not, not_not,
    Option.not_isSome_iff_eq_none]
  exact hm.checkWinLines_eq_none

theorem length_eq_iff_full :
    (ms ++ [m]).length = height * width ↔ Full width height (boardAfter (ms ++ [m])) := by
  rw [full_iff_card, boardAfter_concat, hm.card_taken, h.card_taken, List.length_append,
    List.length_singleton]

theorem recognised : Recognised width height ms m where
  win := isSome_checkWinLines h hm
  lines lines hlines := by
    rw [boardAfter_concat] at hlines ⊢
    exact hm.linesExact hlines
  draw := by
    rw [← length_eq_iff_full h hm, ← isSome_checkWinLines h hm, judge]
    split
    · rename_i hwin
      exact iff_of_false (by simp) fun hfull => hfull.2 hwin
    · rename_i hwin
      split
      · exact iff_of_true rfl ⟨‹_›, hwin⟩
      · exact iff_of_false (by simp) fun hfull => absurd hfull.1 ‹_›

end Board

/-! ## At a table -/

theorem checkLine_eq_length (b : Board) (chess fuel : Nat) (step : Place) (x y : Int) :
    checkLine b chess step.1 step.2 fuel x y =
      (lineFrom chessW chessH b chess step fuel x y).length := by
  induction fuel generalizing x y with
  | zero => rfl
  | succ fuel ih =>
      rw [checkLine, lineFrom]
      split
      · rfl
      split
      · rfl
      · rw [ih, List.length_cons, Nat.add_comm]

theorem Stands.checkLine_eq {b : Board} {x y chess : Nat} {step : Place}
    (h : Stands chessW chessH b x y chess) (hstep : step ∈ gridSteps ∨ -step ∈ gridSteps) :
    checkLine b chess step.1 step.2 15 x y =
      stretch (onLine chessW chessH b chess step x y) (chessW + chessH) := by
  rw [checkLine_eq_length, lineFrom_eq h.chess_ne, List.length_map, List.length_range]
  exact (stretch_eq_of_end (by decide) (h.onLine_far hstep le_rfl le_rfl) (by decide)).symm

theorem Stands.checkWin_eq {b : Board} {x y chess : Nat} (h : Stands chessW chessH b x y chess) :
    checkWin x y b = (checkWinLines chessW chessH b x y).isSome := by
  have hlength (step : Place) (hstep : step ∈ gridSteps) :
      1 + checkLine b chess step.1 step.2 15 x y + checkLine b chess (-step.1) (-step.2) 15 x y =
        (chessLine chessW chessH b x y step).length := by
    have hback := @checkLine_eq _ _ _ _ (-step) h (.inr (by rwa [neg_neg]))
    rw [Prod.fst_neg, Prod.snd_neg] at hback
    rw [length_chessLine h, h.checkLine_eq (.inl hstep), hback]
    simp only [runThrough]
    omega
  have hwin : checkWin x y b = true ↔
      ∃ step ∈ gridSteps, 5 ≤ (chessLine chessW chessH b x y step).length := by
    rw [checkWin, h.stone_eq, List.any_eq_true]
    refine exists_congr fun step => and_congr_right fun hstep => ?_
    rw [← hlength step hstep]
    exact decide_eq_true_iff
  have hlines : (checkWinLines chessW chessH b x y).isSome = true ↔
      ∃ step ∈ gridSteps, 5 ≤ (chessLine chessW chessH b x y step).length := by
    have hany : (gridSteps.map (chessLine chessW chessH b x y)).filter (fun line =>
        5 ≤ line.length) ≠ [] ↔
          ∃ step ∈ gridSteps, 5 ≤ (chessLine chessW chessH b x y step).length := by
      simp [List.filter_eq_nil_iff]
    rw [checkWinLines, ← hany]
    split
    · exact iff_of_false (by simp) (not_not.mpr ‹_›)
    · exact iff_of_true rfl ‹_›
  rw [Bool.eq_iff_iff, hwin, hlines]

namespace Table

def move (t : Table) (seat pos : Nat) : Move :=
  ⟨posX pos, posY pos, if t.firstSeat = seat then 1 else 2⟩

inductive Played : List Move → Table → Prop
  | newGame (t : Table) : Played [] t.newGame
  | other {ms : List Move} {t t' : Table} (h : Played ms t)
      (hboard : t'.chessboard = t.chessboard) (hlist : t'.operList = t.operList) : Played ms t'
  | xiaqi {ms : List Move} {t t' : Table} {seat pos : Nat} {now : Int} (h : Played ms t)
      (hrun : t.xiaqi seat pos now = .done t' 0) (hwin : t'.settlementInfo.type ≠ some .nor) :
      Played (ms ++ [t.move seat pos]) t'

variable {t t' : Table} {ms : List Move} {seat pos : Nat} {now : Int}

structure Judged (t : Table) (seat : Nat) : Prop where
  win : (t.nextStatus = some .settlement ∧ t.settlementInfo.type = some .nor ∧
    t.settlementInfo.winSeat = some seat) ↔ HasFive chessW chessH t.chessboard
  draw : (t.nextStatus = some .settlement ∧ t.settlementInfo.type = some .qiPanXiaMan ∧
    t.settlementInfo.winSeat = some 0) ↔
      Gobang.Full chessW chessH t.chessboard ∧ ¬HasFive chessW chessH t.chessboard
  goesOn : t.nextStatus = some .xq ↔
    ¬Gobang.Full chessW chessH t.chessboard ∧ ¬HasFive chessW chessH t.chessboard

theorem xiaqi_cases (hrun : t.xiaqi seat pos now = .done t' 0) :
    Accepts chessW chessH t.chessboard (t.move seat pos) ∧
      t'.chessboard = (t.move seat pos).put t.chessboard ∧ t'.operList = t.operList ++ [pos] ∧
      (checkWin (posX pos) (posY pos) t'.chessboard = true ∧ t'.nextStatus = some .settlement ∧
          t'.settlementInfo.type = some .nor ∧ t'.settlementInfo.winSeat = some seat ∨
        checkWin (posX pos) (posY pos) t'.chessboard = false ∧
          t'.operList.length = chessH * chessW ∧ t'.nextStatus = some .settlement ∧
          t'.settlementInfo.type = some .qiPanXiaMan ∧ t'.settlementInfo.winSeat = some 0 ∨
        checkWin (posX pos) (posY pos) t'.chessboard = false ∧
          t'.operList.length ≠ chessH * chessW ∧ t'.nextStatus = some .xq ∧
          t'.settlementInfo = t.settlementInfo) := by
  unfold Table.xiaqi at hrun
  split at hrun
  · cases hrun
  split at hrun
  · cases hrun
  split at hrun
  · cases hrun
  rename_i hin
  split at hrun
  · cases hrun
  rename_i hfree
  have haccepts : Accepts chessW chessH t.chessboard (t.move seat pos) := by
    refine ⟨?_, ?_, ?_, ?_, not_not.mp hfree, ?_⟩
    all_goals simp only [move]
    · omega
    · omega
    · omega
    · omega
    · split <;> decide
  refine ⟨haccepts, ?_⟩
  dsimp only at hrun
  split at hrun
  · split at hrun
    · rename_i hwin
      cases hrun
      exact ⟨rfl, rfl, .inl ⟨hwin, rfl, rfl, rfl⟩⟩
    rename_i hwin
    split at hrun
    · rename_i hlength
      cases hrun
      exact ⟨rfl, rfl, .inr (.inl ⟨Bool.not_eq_true _ ▸ hwin, hlength, rfl, rfl, rfl⟩)⟩
    · rename_i hlength
      cases hrun
      exact ⟨rfl, rfl, .inr (.inr ⟨Bool.not_eq_true _ ▸ hwin, hlength, rfl, rfl⟩)⟩
  · cases hrun

structure Follows (ms : List Move) (t : Table) : Prop where
  undecided : Undecided chessW chessH ms
  board : t.chessboard = boardAfter ms
  length : t.operList.length = ms.length

namespace Follows

variable (h : t.Follows ms) (hrun : t.xiaqi seat pos now = .done t' 0)

include h hrun

theorem accepts : Accepts chessW chessH (boardAfter ms) (t.move seat pos) := by
  rw [← h.board]
  exact (xiaqi_cases hrun).1

theorem board_xiaqi : t'.chessboard = boardAfter (ms ++ [t.move seat pos]) := by
  rw [boardAfter_concat, ← h.board]
  exact (xiaqi_cases hrun).2.1

theorem length_xiaqi : t'.operList.length = (ms ++ [t.move seat pos]).length := by
  rw [(xiaqi_cases hrun).2.2.1, List.length_append, List.length_append, h.length]
  rfl

theorem checkWin_xiaqi : checkWin (posX pos) (posY pos) t'.chessboard =
    (checkWinLines chessW chessH t'.chessboard (posX pos) (posY pos)).isSome := by
  have hstands := (h.accepts hrun).stands
  rw [← boardAfter_concat, ← h.board_xiaqi hrun] at hstands
  exact hstands.checkWin_eq

theorem judged : t'.Judged seat := by
  have hwin : checkWin (posX pos) (posY pos) t'.chessboard = true ↔
      HasFive chessW chessH t'.chessboard := by
    rw [h.checkWin_xiaqi hrun, h.board_xiaqi hrun]
    exact isSome_checkWinLines h.undecided (h.accepts hrun)
  have hfull : t'.operList.length = chessH * chessW ↔
      Gobang.Full chessW chessH t'.chessboard := by
    rw [h.length_xiaqi hrun, h.board_xiaqi hrun]
    exact length_eq_iff_full h.undecided (h.accepts hrun)
  obtain ⟨-, -, -, hcases⟩ := xiaqi_cases hrun
  rcases hcases with ⟨hcheck, hnext, htype, hseat⟩ | ⟨hcheck, hlength, hnext, htype, hseat⟩ |
    ⟨hcheck, hlength, hnext, -⟩
  · have hfive := hwin.mp hcheck
    refine ⟨iff_of_true ⟨hnext, htype, hseat⟩ hfive, iff_of_false ?_ fun hdraw => hdraw.2 hfive,
      iff_of_false ?_ fun hgoes => hgoes.2 hfive⟩
    · simp [htype]
    · simp [hnext]
  · have hnone : ¬HasFive chessW chessH t'.chessboard := by
      rw [← hwin, hcheck]
      exact Bool.false_ne_true
    refine ⟨iff_of_false ?_ hnone, iff_of_true ⟨hnext, htype, hseat⟩ ⟨hfull.mp hlength, hnone⟩,
      iff_of_false ?_ fun hgoes => hgoes.1 (hfull.mp hlength)⟩
    · simp [htype]
    · simp [hnext]
  · have hnone : ¬HasFive chessW chessH t'.chessboard := by
      rw [← hwin, hcheck]
      exact Bool.false_ne_true
    have hroom := mt hfull.mpr hlength
    refine ⟨iff_of_false ?_ hnone, iff_of_false ?_ fun hdraw => hroom hdraw.1,
      iff_of_true hnext ⟨hroom, hnone⟩⟩
    · simp [hnext]
    · simp [hnext]

theorem xiaqi (hwin : t'.settlementInfo.type ≠ some .nor) :
    t'.Follows (ms ++ [t.move seat pos]) := by
  refine ⟨.move h.undecided (h.accepts hrun) ?_, h.board_xiaqi hrun, h.length_xiaqi hrun⟩
  have hcheck : checkWin (posX pos) (posY pos) t'.chessboard = false := by
    obtain ⟨-, -, -, hcases⟩ := xiaqi_cases hrun
    rcases hcases with ⟨-, -, htype, -⟩ | ⟨hcheck, -⟩ | ⟨hcheck, -⟩
    · exact absurd htype hwin
    · exact hcheck
    · exact hcheck
  rw [h.checkWin_xiaqi hrun, h.board_xiaqi hrun] at hcheck
  exact Option.isSome_eq_false_iff.mp hcheck |> Option.isNone_iff_eq_none.mp

end Follows

theorem Played.follows (h : Played ms t) : t.Follows ms := by
  induction h with
  | newGame t => exact ⟨.nil, rfl, rfl⟩
  | other h hboard hlist ih =>
      exact ⟨ih.undecided, hboard.trans ih.board, (congrArg List.length hlist).trans ih.length⟩
  | xiaqi h hrun hwin ih => exact ih.xiaqi hrun hwin

end Table

/-- On every board the lines through the last stone tell a win, what is returned are the maximal
runs, and a full board without a run is a draw; the games of a table are so judged. -/
theorem wins_recognised :
    (∀ width height ms m, Undecided width height ms → Accepts width height (boardAfter ms) m →
      Recognised width height ms m) ∧
    ∀ ms (t t' : Table) seat pos now, t.Played ms → t.xiaqi seat pos now = .done t' 0 →
      t'.Judged seat :=
  ⟨fun _ _ _ _ => recognised, fun _ _ _ _ _ _ h hrun => h.follows.judged hrun⟩

instance (width height : Nat) (b : Board) : DecidablePred (Accepts width height b) := fun m =>
  decidable_of_iff' _ (accepts_iff width height b m)

def opened : Table :=
  { Table.newTable {} with
    status := .xq
    curP := 1
    firstSeat := 1
    operBeginTime := some 0 }

/-- The last place of a narrow board, and the first stone at a table. -/
theorem wins_recognised_corner :
    Recognised 5 1 [⟨1, 1, 1⟩, ⟨2, 1, 1⟩, ⟨3, 1, 1⟩, ⟨4, 1, 1⟩] ⟨5, 1, 1⟩ ∧
      ∃ t', opened.xiaqi 1 8080 0 = .done t' 0 ∧ t'.Judged 1 := by
  have hone : Undecided 5 1 [⟨1, 1, 1⟩] :=
    @Undecided.move 5 1 [] _ .nil (by decide) (by decide)
  have htwo : Undecided 5 1 [⟨1, 1, 1⟩, ⟨2, 1, 1⟩] :=
    @Undecided.move 5 1 [⟨1, 1, 1⟩] _ hone (by decide) (by decide)
  have hthree : Undecided 5 1 [⟨1, 1, 1⟩, ⟨2, 1, 1⟩, ⟨3, 1, 1⟩] :=
    @Undecided.move 5 1 [⟨1, 1, 1⟩, ⟨2, 1, 1⟩] _ htwo (by decide) (by decide)
  have hfour : Undecided 5 1 [⟨1, 1, 1⟩, ⟨2, 1, 1⟩, ⟨3, 1, 1⟩, ⟨4, 1, 1⟩] :=
    @Undecided.move 5 1 [⟨1, 1, 1⟩, ⟨2, 1, 1⟩, ⟨3, 1, 1⟩] _ hthree (by decide) (by decide)
  refine ⟨wins_recognised.1 5 1 _ _ hfour (by decide), _, rfl, ?_⟩
  exact wins_recognised.2 [] opened _ 1 8080 0 (.other (.newGame { config := {} }) rfl rfl) rfl

end JyQipai.Gobang
