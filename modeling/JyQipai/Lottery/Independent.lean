import JyQipai.Lottery.Expression
import JyQipai.Lib.Unwind

/-!
# Two lotteries in one

Both lotteries read one configuration and keep one record for each player.  They do not meet
where the loaded configurations are the same and each player stays with one of them, whole
cycles apart.
-/

namespace JyQipai.Lottery

open Lib

def Center.config (s : Center) : Kind → Expression
  | .expression666 => s.expression666
  | .expressionShuitong => s.expressionShuitong

def Kind.expressionId : Kind → Nat
  | .expression666 => 54
  | .expressionShuitong => 56

def Event.keep (kind : Kind) : Event → Bool
  | .lottery k _ _ _ => k = kind
  | .loadConfig _ _ => true

def Event.Plays (kind : Kind) (playerId : PlayerId) (s : Center) : Event → Prop
  | .lottery k p time _ => k = kind ∧ p = playerId ∧ (time : Int) ≠ (s.config k).cycle
  | .loadConfig _ _ => False

variable (F : NumFormat)

def Center.next (s : Center) (e : Event) : Center := (s.step F e).2

def Event.DrawsOwn (s : Center) : Event → Prop
  | .lottery kind playerId time draws =>
      s.step F (.lottery kind playerId time draws) =
        let (r, s) := s.lotteryExpression F (s.config kind) kind.expressionId playerId time draws
        (some r, s)
  | .loadConfig _ _ => True

/-- Each lottery gives the results, and leaves the records of its players, that it would
without the calls of the other one. -/
structure Independent (s : Center) (es : List Event) : Prop where
  own : Allowed (Center.next F) (Event.DrawsOwn F) s es
  results : ∀ kind, (answers (Center.step F) s es).filter (fun x => x.1.keep kind) =
    answers (Center.step F) s (es.filter (Event.keep kind))
  cycles : ∀ kind playerId,
    ¬Allowed (Center.next F) (fun s e => ¬e.Plays kind playerId s) s es →
      (run (Center.next F) s es).playerLotteryData playerId =
        (run (Center.next F) s (es.filter (Event.keep kind))).playerLotteryData playerId

/-- The configurations are the same when the second lottery is drawn, and a player draws in
his own lottery or for a whole cycle. -/
def Separate (side : PlayerId → Kind) (s : Center) : Event → Prop
  | .lottery kind playerId time _ =>
      (kind = .expressionShuitong → s.expressionShuitong = s.expression666) ∧
        ((time : Int) ≠ s.expression666.cycle → kind = side playerId)
  | .loadConfig _ _ => True

section Call

variable {F} {s t : Center} {cfg : Expression} {expressionId : Nat} {playerId : PlayerId}
  {time : Nat} {draws : Draws}

theorem lotteryExpression_cycle (cfg : Expression) (expressionId : Nat) (playerId : PlayerId)
    (draws : Draws) (h : (time : Int) = cfg.cycle) :
    ∃ r, ∀ s : Center,
      s.lotteryExpression F cfg expressionId playerId time draws = (r, s) := by
  unfold Center.lotteryExpression
  cases draws.random 0 cfg.itemCount.min cfg.itemCount.max with
  | none => exact ⟨_, fun s => rfl⟩
  | some count => exact ⟨_, fun s => by simp only [h, if_true]; rfl⟩

theorem lotteryExpression_single (cfg : Expression) (expressionId : Nat) (playerId : PlayerId)
    (draws : Draws) (h : (time : Int) ≠ cfg.cycle) (old : Option PlayerData) :
    ∃ r new, ∀ s : Center, s.playerLotteryData playerId = old →
      s.lotteryExpression F cfg expressionId playerId time draws =
        (r, { s with
          playerLotteryData := Function.update s.playerLotteryData playerId new }) := by
  unfold Center.lotteryExpression
  cases draws.random 0 cfg.itemCount.min cfg.itemCount.max with
  | none =>
      refine ⟨⟨none, none⟩, old, fun s hs => ?_⟩
      rw [← hs, Function.update_eq_self]
  | some count =>
      let pld := old.getD { playerId, lotteryItemCount := count }
      let result :=
        lotteries F cfg expressionId (cfg.cycle - pld.lotteryItemCount) draws time pld {} 1
      refine ⟨⟨result.2, result.2.map fun _ => result.1⟩, some result.1, fun s hs => ?_⟩
      simp only [h, if_false, hs]
      rfl

end Call

section Runs

variable {F} {s t : Center} {side : PlayerId → Kind}

theorem step_lottery (s : Center) (kind : Kind) (playerId : PlayerId) (time : Nat)
    (draws : Draws) : s.step F (.lottery kind playerId time draws) =
      let (r, s) :=
        s.lotteryExpression F s.expression666 kind.expressionId playerId time draws
      (some r, s) := by
  cases kind with
  | expression666 => rfl
  | expressionShuitong => rfl

theorem drawsOwn_of_separate {e : Event} (h : Separate side s e) : e.DrawsOwn F s := by
  cases e with
  | lottery kind playerId time draws =>
      cases kind with
      | expression666 => rfl
      | expressionShuitong =>
          change _ = _
          rw [step_lottery, Center.config, h.1 rfl]
  | loadConfig raw666 rawShuitong => trivial

structure Alike (side : PlayerId → Kind) (kind : Kind) (s t : Center) : Prop where
  expression666 : s.expression666 = t.expression666
  expressionShuitong : s.expressionShuitong = t.expressionShuitong
  data : ∀ playerId, side playerId = kind →
    s.playerLotteryData playerId = t.playerLotteryData playerId

theorem Alike.stays {kind : Kind} (h : Alike side kind s t) {e : Event}
    (hok : Separate side s e) (hkeep : e.keep kind = true) :
    (s.step F e).1 = (t.step F e).1 ∧ Alike side kind (s.step F e).2 (t.step F e).2 := by
  cases e with
  | lottery k playerId time draws =>
      obtain rfl : k = kind := by simpa [Event.keep] using hkeep
      rw [step_lottery, step_lottery, ← h.expression666]
      by_cases hcycle : (time : Int) = s.expression666.cycle
      · obtain ⟨r, hr⟩ := lotteryExpression_cycle (F := F) s.expression666 k.expressionId playerId
          draws hcycle
        rw [hr s, hr t]
        exact ⟨rfl, h⟩
      · have hside := hok.2 hcycle
        obtain ⟨r, new, hr⟩ := lotteryExpression_single (F := F) s.expression666 k.expressionId
          playerId draws hcycle (s.playerLotteryData playerId)
        rw [hr s rfl, hr t (h.data playerId hside.symm).symm]
        refine ⟨rfl, h.expression666, h.expressionShuitong, fun p hp => ?_⟩
        by_cases hpp : p = playerId
        · subst hpp
          exact (Function.update_self ..).trans
            (Function.update_self p new t.playerLotteryData).symm
        · exact (Function.update_of_ne hpp ..).trans
            ((h.data p hp).trans (Function.update_of_ne hpp new t.playerLotteryData).symm)
  | loadConfig raw666 rawShuitong => exact ⟨rfl, rfl, rfl, h.data⟩

theorem Alike.skips {kind : Kind} (h : Alike side kind s t) {e : Event}
    (hok : Separate side s e) (hkeep : e.keep kind = false) :
    Alike side kind (s.step F e).2 t := by
  cases e with
  | lottery k playerId time draws =>
      have hne : k ≠ kind := by simpa [Event.keep] using hkeep
      rw [step_lottery]
      by_cases hcycle : (time : Int) = s.expression666.cycle
      · obtain ⟨r, hr⟩ := lotteryExpression_cycle (F := F) s.expression666 k.expressionId playerId
          draws hcycle
        rw [hr s]
        exact h
      · have hside := hok.2 hcycle
        obtain ⟨r, new, hr⟩ := lotteryExpression_single (F := F) s.expression666 k.expressionId
          playerId draws hcycle (s.playerLotteryData playerId)
        rw [hr s rfl]
        refine ⟨h.expression666, h.expressionShuitong, fun p hp => ?_⟩
        have hpp : p ≠ playerId := by
          rintro rfl
          exact hne (hside.trans hp)
        exact (Function.update_of_ne hpp ..).trans (h.data p hp)
  | loadConfig raw666 rawShuitong => cases hkeep

def unwinding (F : NumFormat) (side : PlayerId → Kind) (kind : Kind) :
    Unwinding (Center.step F) (Separate side) (Event.keep kind) where
  related := Alike side kind
  stays h hok hkeep := h.stays hok hkeep
  skips h hok hkeep := h.skips hok hkeep

end Runs

/-- Where every player draws in one of the lotteries, and the second lottery has the
configuration of the first, the lotteries are independent. -/
theorem lotteries_independent {s : Center} {es : List Event} (side : PlayerId → Kind)
    (h : Allowed (Center.next F) (Separate side) s es) : Independent F s es := by
  have hself (kind : Kind) : Alike side kind s s := ⟨rfl, rfl, fun _ _ => rfl⟩
  refine ⟨?_, fun kind => (unwinding F side kind).answers_filter (hself kind) h,
    fun kind playerId hplays => ?_⟩
  · exact h.mono fun _ _ => drawsOwn_of_separate
  · have hside : side playerId = kind := by
      by_contra hne
      refine hplays (h.mono fun s e hok hplay => ?_)
      cases e with
      | lottery k p time draws =>
          obtain ⟨rfl, rfl, htime⟩ := hplay
          refine hne (hok.2 fun hcycle => htime ?_).symm
          cases k with
          | expression666 => exact hcycle
          | expressionShuitong => exact hcycle.trans (congrArg Expression.cycle (hok.1 rfl)).symm
      | loadConfig raw666 rawShuitong => exact hplay
    exact ((unwinding F side kind).related_run (hself kind) h).data playerId hside

def tenDraws (asset : Bound) : Expression where
  cycle := 10
  itemCount := ⟨8, 8⟩
  assetType := "shop_gold_sum"
  assetValue := asset
  items := [⟨"jing_bi", some 1000⟩, ⟨"expression", some 1⟩]

def sameConfig : Center where
  expression666 := tenDraws ⟨100, 200⟩
  expressionShuitong := tenDraws ⟨100, 200⟩

def ownConfig : Center where
  expression666 := tenDraws ⟨100, 200⟩
  expressionShuitong := tenDraws ⟨10, 20⟩

def drawsOf (p q : PlayerId) (n : Nat) : List Event :=
  [.lottery .expression666 p 1 fun _ => n, .lottery .expressionShuitong q 1 fun _ => n]

theorem lotteries_independent_two :
    Independent .exact sameConfig (drawsOf "a" "b" 9) :=
  lotteries_independent .exact
    (fun p => if p = "a" then .expression666 else .expressionShuitong)
    ⟨⟨nofun, fun _ => rfl⟩, ⟨fun _ => rfl, fun _ => rfl⟩, trivial⟩

/-- The second lottery draws from the configuration of the first, and for a player of both it
goes on with the cycle of the first. -/
theorem lotteries_shared :
    ¬Independent .exact ownConfig (drawsOf "a" "b" 0) ∧
      ¬Independent .exact sameConfig (drawsOf "a" "a" 9) := by
  constructor
  · intro h
    have hown := congrArg (fun x => x.1) h.own.2.1
    revert hown
    decide +kernel
  · intro h
    have hresults := congrArg (List.map Prod.snd) (h.results .expressionShuitong)
    revert hresults
    decide +kernel

end JyQipai.Lottery
