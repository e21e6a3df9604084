import JyQipai.Xiaoxiaole.Agent

/-!
# Stakes and awards

A spin waits for the room with its stake still among the coins.  While nobody else takes them
meanwhile and the room is reached, just the spins that are carried out are charged; and while
the same stake is always made of as many bets, it is always paid alike.
-/

namespace JyQipai.Xiaoxiaole

open Lib

def stake (bets : Bets) : Int := (bets.map Int64.toInt).sum

def chargeOf : Bets × Answer → Option Int
  | (bets, .ret _) => some (-stake bets)
  | _ => none

/-- Each spin that the room has carried out is charged once with the sum of its bets, and
nothing else is; the coins suffice; and the award depends on the sum of the bets. -/
structure Charged (start : Int) (s : Agent) : Prop where
  balance : s.coins = start + s.changed.sum + s.spent.sum
  charged : s.spent = s.answered.filterMap chargeOf
  solvent : 0 ≤ s.coins
  award : ∀ x ∈ s.answered, ∀ y ∈ s.answered, stake x.1 = stake y.1 → ∀ r r',
    x.2 = .ret r → y.2 = .ret r' → r.kaijiang.realAwardRate = r'.kaijiang.realAwardRate →
      r.awardMoney = r'.awardMoney

structure Agent.Started (s : Agent) : Prop where
  answered : s.answered = []
  spent : s.spent = []
  changed : s.changed = []
  solvent : 0 ≤ s.coins

def Answers : Call → Answer → Prop
  | .kaijiang _ bets _ betMoney, a =>
      a = .callFail ∨
        ∃ locked seated lottery, a = roomKaijiang locked seated bets betMoney lottery
  | .createRoom, a => ∃ code roomId tableId, a = .room code roomId tableId
  | .quitRoom, a => ∃ code, a = .number code

def Covered (s : Agent) : Event → Prop
  | .change value => 0 ≤ s.coins + value
  | _ => True

def Fits (size : Int → Nat) (bets : Bets) : Prop :=
  ∀ need, Agent.verifyBets bets = .ok need → need = stake bets ∧ bets.length = size need

def Sized (size : Int → Nat) : Event → Prop
  | .xxlKaijiang (some bets) => Fits size bets
  | _ => True

def Reached : Call → Answer → Prop
  | .kaijiang _ _ _ _, a => a ≠ .callFail
  | _, _ => True

def Kept (s : Agent) : Call → Answer → Prop
  | .kaijiang _ _ need _, .ret _ => need ≤ s.coins
  | _, _ => True

section Owns

variable {start : Int} {size : Int → Nat} {s t : Agent}

structure Settled (start : Int) (size : Int → Nat) (s : Agent) : Prop where
  balance : s.coins = start + s.changed.sum + s.spent.sum
  charged : s.spent = s.answered.filterMap chargeOf
  solvent : 0 ≤ s.coins
  award : ∀ bets r, (bets, Answer.ret r) ∈ s.answered →
    r.awardMoney = awardMoney r.kaijiang.realAwardRate (stake bets / size (stake bets))

theorem Settled.toCharged (h : Settled start size s) : Charged start s where
  balance := h.balance
  charged := h.charged
  solvent := h.solvent
  award := by
    rintro ⟨bets, a⟩ hx ⟨bets', a'⟩ hy hstake r r' ha ha' hrate
    dsimp only at hstake ha ha'
    subst ha ha'
    rw [h.award bets r hx, h.award bets' r' hy, hrate, hstake]

def owning (start : Int) (size : Int → Nat) : Owning Agent Call Answer PUnit where
  valid q a := Answers q a ∧ Reached q a
  keeps _ := True
  holds s _ := Settled start size s
  may _ _ := True
  frame q a s _ := Kept s q a

structure SameBooks (s t : Agent) : Prop where
  coins : t.coins = s.coins
  answered : t.answered = s.answered
  spent : t.spent = s.spent
  changed : t.changed = s.changed

theorem Settled.congr (h : Settled start size s) (hst : SameBooks s t) :
    Settled start size t where
  balance := by rw [hst.coins, hst.changed, hst.spent, h.balance]
  charged := by rw [hst.spent, hst.answered, h.charged]
  solvent := hst.coins ▸ h.solvent
  award := hst.answered ▸ h.award

theorem turns_of_same {fr : PUnit → Prop} (hst : SameBooks s t) (g g' : PUnit) :
    (owning start size).Turns fr s g t g' :=
  ⟨trivial, fun _ _ h => h.congr hst⟩

theorem Settled.change (h : Settled start size s) {value : Int} (hvalue : 0 ≤ s.coins + value) :
    Settled start size (s.change value) where
  balance := by
    have := h.balance
    simp only [Agent.change, List.sum_append, List.sum_singleton]
    omega
  charged := h.charged
  solvent := hvalue
  award := h.award

theorem Settled.note_number (h : Settled start size s) (bets : Bets) (code : Int) :
    Settled start size (s.note bets (.number code)) where
  balance := h.balance
  charged := by
    rw [Agent.note, List.filterMap_append, h.charged]
    exact (List.append_nil _).symm
  solvent := h.solvent
  award := by
    intro bets' r hmem
    rcases List.mem_append.mp hmem with hmem | hmem
    · exact h.award bets' r hmem
    · simp at hmem

theorem Settled.note_ret (h : Settled start size s) {bets : Bets} {r : RoomRet} {need : Int}
    (hneed : need = stake bets) (hcoins : need ≤ s.coins)
    (haward : r.awardMoney =
      awardMoney r.kaijiang.realAwardRate (stake bets / size (stake bets))) :
    Settled start size ((s.note bets (.ret r)).spend need) where
  balance := by
    have := h.balance
    simp only [Agent.spend, Agent.note, List.sum_append, List.sum_singleton]
    omega
  charged := by
    change s.spent ++ [-need] = (s.answered ++ [(bets, Answer.ret r)]).filterMap chargeOf
    rw [List.filterMap_append, ← h.charged, hneed]
    rfl
  solvent := by
    change 0 ≤ s.coins - need
    omega
  award := by
    intro bets' r' hmem
    rcases List.mem_append.mp hmem with hmem | hmem
    · exact h.award bets' r' hmem
    · simp only [List.mem_singleton, Prod.mk.injEq, Answer.ret.injEq] at hmem
      obtain ⟨rfl, rfl⟩ := hmem
      exact haward

variable {createLucky : Board → Int → List Lucky → Option (String × String)}

theorem sameBooks_setLock (s : Agent) (lock : Lock) (b : Bool) : SameBooks s (s.setLock lock b) :=
  ⟨rfl, rfl, rfl, rfl⟩

theorem roomKaijiang_cases (locked seated : Bool) (bets : Bets) (betMoney : Int)
    (lottery : LotteryAnswer) :
    (∃ code, roomKaijiang locked seated bets betMoney lottery = .number code) ∨
      ∃ r, roomKaijiang locked seated bets betMoney lottery = .ret r ∧
        r.awardMoney = awardMoney r.kaijiang.realAwardRate betMoney := by
  unfold roomKaijiang
  by_cases hlocked : locked = true
  · exact .inl ⟨1008, if_pos hlocked⟩
  · rw [if_neg hlocked]
    by_cases hseated : (!seated) = true
    · exact .inl ⟨1003, if_pos hseated⟩
    · rw [if_neg hseated]
      by_cases hbets : bets = []
      · exact .inl ⟨1003, if_pos hbets⟩
      · rw [if_neg hbets]
        cases lottery with
        | number code => exact .inl ⟨code, rfl⟩
        | kaijiang k => exact .inr ⟨_, rfl, rfl⟩

theorem owns_answerKaijiang {bets : Bets} {need : Int} {tableId : Nat} {a : Answer}
    (hfits : need = stake bets ∧ bets.length = size need)
    (ha : (owning start size).valid (.kaijiang tableId bets need (need / bets.length)) a) :
    (Agent.answerKaijiang createLucky bets need a s).Owns (owning start size)
      (fun _ _ g => g = 0)
      ((owning start size).frame (.kaijiang tableId bets need (need / bets.length)) a s) s
        PUnit.unit := by
  obtain ⟨hroom | ⟨locked, seated, lottery, hroom⟩, hreached⟩ := ha
  · exact absurd hroom hreached
  rcases roomKaijiang_cases locked seated bets (need / bets.length) lottery with
    ⟨code, hcode⟩ | ⟨r, hr, haward⟩
  · rw [hcode] at hroom
    subst hroom
    refine ⟨PUnit.unit, ⟨trivial, fun f _ h => ?_⟩, rfl⟩
    exact (h.note_number bets code).congr (sameBooks_setLock _ _ _)
  · rw [hr] at hroom
    subst hroom
    have hturns {t : Agent} (ht : SameBooks ((s.note bets (.ret r)).spend need) t) :
        (owning start size).Turns
          ((owning start size).frame (.kaijiang tableId bets need (need / bets.length)) (.ret r) s)
          s PUnit.unit t PUnit.unit := by
      refine ⟨trivial, fun f hkept h => (h.note_ret hfits.1 hkept ?_).congr ht⟩
      rw [haward, ← hfits.1, hfits.2]
    unfold Agent.answerKaijiang
    dsimp only
    split
    · exact ⟨PUnit.unit, hturns (by exact ⟨rfl, rfl, rfl, rfl⟩), rfl⟩
    · exact hturns ⟨rfl, rfl, rfl, rfl⟩

theorem owns_xxlKaijiang {bets : Option Bets} (hsized : Sized size (.xxlKaijiang bets)) :
    (Agent.xxlKaijiang createLucky bets s).Owns (owning start size) (fun _ _ g => g = 0)
      (fun _ => True) s 0 := by
  have hstay (code : Int) : (Prog.done s (.result code) : Prog Agent Call Answer Response).Owns
      (owning start size) (fun _ _ g => g = 0) (fun _ => True) s 0 :=
    ⟨0, turns_of_same (by exact ⟨rfl, rfl, rfl, rfl⟩) _ _, rfl⟩
  cases bets with
  | none => exact hstay 1001
  | some bets =>
      unfold Agent.xxlKaijiang
      dsimp only
      split
      · exact hstay 1008
      split
      · split
        · exact hstay _
        next need hneed =>
          split
          · exact hstay 1023
          refine ⟨PUnit.unit, turns_of_same (sameBooks_setLock _ _ _) _ _, trivial,
            fun a u ha _ => ?_⟩
          exact owns_answerKaijiang (hsized need hneed) ha
      · exact hstay 1002

theorem owns_xxlEnterGame : (Agent.xxlEnterGame s).Owns (owning start size)
    (fun _ _ g => g = 0) (fun _ => True) s 0 := by
  rw [Agent.xxlEnterGame]
  split
  · exact ⟨0, turns_of_same (by exact ⟨rfl, rfl, rfl, rfl⟩) _ _, rfl⟩
  split
  · exact ⟨0, turns_of_same (by exact ⟨rfl, rfl, rfl, rfl⟩) _ _, rfl⟩
  refine ⟨PUnit.unit, turns_of_same (by exact ⟨rfl, rfl, rfl, rfl⟩) _ _, trivial,
    fun a u _ _ => ?_⟩
  dsimp only
  split
  · exact ⟨0, turns_of_same (by exact ⟨rfl, rfl, rfl, rfl⟩) _ _, rfl⟩
  · exact turns_of_same (by exact ⟨rfl, rfl, rfl, rfl⟩) _ _

theorem owns_xxlQuitGame : (Agent.xxlQuitGame s).Owns (owning start size)
    (fun _ _ g => g = 0) (fun _ => True) s 0 := by
  rw [Agent.xxlQuitGame]
  split
  · exact ⟨0, turns_of_same (by exact ⟨rfl, rfl, rfl, rfl⟩) _ _, rfl⟩
  split
  · exact ⟨0, turns_of_same (by exact ⟨rfl, rfl, rfl, rfl⟩) _ _, rfl⟩
  refine ⟨PUnit.unit, turns_of_same (by exact ⟨rfl, rfl, rfl, rfl⟩) _ _, trivial,
    fun a u _ _ => ?_⟩
  cases a with
  | number code => exact ⟨0, turns_of_same (by exact ⟨rfl, rfl, rfl, rfl⟩) _ _, rfl⟩
  | callFail => exact turns_of_same (by exact ⟨rfl, rfl, rfl, rfl⟩) _ _
  | ret r => exact turns_of_same (by exact ⟨rfl, rfl, rfl, rfl⟩) _ _
  | room code roomId tableId => exact turns_of_same (by exact ⟨rfl, rfl, rfl, rfl⟩) _ _

theorem owns_handle {e : Event} (hcovered : Covered s e) (hsized : Sized size e) :
    (handle createLucky e s).Owns (owning start size) (fun _ _ g => g = 0)
      (fun _ => True) s 0 := by
  cases e with
  | xxlKaijiang bets => exact owns_xxlKaijiang hsized
  | xxlEnterGame => exact owns_xxlEnterGame
  | xxlQuitGame => exact owns_xxlQuitGame
  | change value =>
      exact ⟨0, ⟨trivial, fun f _ h => Settled.change h hcovered⟩, rfl⟩

end Owns

/-! ## Runs -/

def Comes (w : World Agent Call Answer Response) : Input Event Answer → Prop :=
  w.Admits Answers Covered fun _ => True

/-- Moreover the same stake is always made of as many bets; the room is reached; and the coins
are still there when it has carried a spin out. -/
def Fair (size : Int → Nat) (w : World Agent Call Answer Response) :
    Input Event Answer → Prop
  | .command e => Covered w.state e ∧ Sized size e
  | .answer i a => ∀ x ∈ w.waiting[i]?, Answers x.1 a ∧ Reached x.1 a ∧ Kept w.state x.1 a

theorem Agent.Started.settled {s : Agent} (h : s.Started) (size : Int → Nat) :
    Settled s.coins size s where
  balance := by simp [h.changed, h.spent]
  charged := by simp [h.answered, h.spent]
  solvent := h.solvent
  award bets r hmem := by
    rw [h.answered] at hmem
    cases hmem

/-- In a fair run a spin is charged just when it is carried out, and paid by its stake. -/
theorem spins_charged
    {createLucky : Board → Int → List Lucky → Option (String × String)} {size : Int → Nat}
    {s : Agent} {w : World Agent Call Answer Response} (hs : s.Started)
    (h : Reach (World.step (handle createLucky)) (Fair size) ⟨s, []⟩ w) :
    Charged s.coins w.state := by
  have hstart : World.Owned (owning s.coins size)
      (⟨s, []⟩ : World Agent Call Answer Response) :=
    ⟨trivial, [], hs.settled size, .nil⟩
  suffices hall : World.Owned (owning s.coins size) w by
    obtain ⟨-, gs, hsettled, -⟩ := hall
    exact Settled.toCharged hsettled
  refine Reach.invariant hstart (fun v i hv hi => ?_) h
  have hcmd (t : Agent) (e : Event) (he : Covered t e ∧ Sized size e) :
      (handle createLucky e t).Owns (owning s.coins size) (fun _ _ g => g = 0)
        (fun _ => True) t 0 :=
    owns_handle he.1 he.2
  refine World.Owned.step (fun t e _ => hcmd t e) hv (i := i) ?_
    fun j a hj x hx _ _ _ _ _ => ?_
  · cases i with
    | command e => exact hi
    | answer j a => exact ⟨trivial, fun x hx => ⟨(hi x hx).1, (hi x hx).2.1⟩⟩
  · subst hj
    exact (hi x hx).2.2

def player : Agent where
  allData := some
    { roomId := some 1
      tableId := some 1 }
  coins := 500

theorem started_player : player.Started := ⟨rfl, rfl, rfl, by decide⟩

def plainLucky (board : Board) (_ : Int) (_ : List Lucky) : Option (String × String) :=
  some (board, "")

def fiveBets : Bets := [100, 100, 100, 100, 100]

def spin : Input Event Answer := .command (.xxlKaijiang (some fiveBets))

def doubled : RoomRet where
  kaijiang :=
    { xcMap := "12345123"
      realAwardRate := 20
      awardRate := 20
      xcMapRate := 20
      lianLockyAwardRate := 0
      luckyData := [] }
  awardMoney := 200

theorem spins_charged_doubled :
    (run (World.step (handle plainLucky)) ⟨player, []⟩
        [spin, .answer 0 (.ret doubled)]).state.spent = [-500] ∧
      Charged 500 (run (World.step (handle plainLucky)) ⟨player, []⟩
        [spin, .answer 0 (.ret doubled)]).state := by
  refine ⟨by decide, @spins_charged plainLucky (fun _ => 5) _ _ started_player
    (reach_run ⟨?_, ?_, trivial⟩)⟩
  · refine ⟨trivial, fun need hneed => ?_⟩
    obtain rfl : 500 = need := by
      have : Agent.verifyBets fiveBets = .ok 500 := by decide
      exact Except.ok.inj (this.symm.trans hneed)
    decide
  · intro x hx
    obtain rfl := Option.some.inj hx
    refine ⟨.inr ⟨false, true, .kaijiang doubled.kaijiang, by decide⟩, nofun, ?_⟩
    change (500 : Int) ≤ 500
    exact le_rfl

/-- The room is not found, and the stake is taken. -/
theorem spin_lost :
    ¬∀ (createLucky : Board → Int → List Lucky → Option (String × String)) (s : Agent),
      s.Started → ∀ w, Reach (World.step (handle createLucky)) Comes ⟨s, []⟩ w →
        Charged s.coins w.state := by
  intro h
  have hrun := h plainLucky player started_player
    (run (World.step (handle plainLucky)) ⟨player, []⟩ [spin, .answer 0 .callFail])
    (reach_run ⟨trivial, ⟨trivial, fun x hx => ?_⟩, trivial⟩)
  · have hcharged := hrun.charged
    revert hcharged
    decide
  · obtain rfl := Option.some.inj hx
    exact .inl rfl

end JyQipai.Xiaoxiaole
