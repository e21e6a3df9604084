import JyQipai.Ddz.Blind
import JyQipai.Ddz.HandEnds
import JyQipai.Ddz.Turn

/-!
# Plays with an empty list of wildcards

In a game without wildcards an agent lets a play through that has an empty list of wildcards.  The
room takes its cards from the hand and then raises an error, of which no agent hears.
-/

namespace JyQipai.Ddz

open JyQipai.Lib
open Table (ChupaiArgs)

namespace Table

variable {kaiguan : Nat → Bool} {F : NumFormat} {cfg : Config} {t : Table}

/-- A play that reaches a table in its turn comes from the agent of an occupied seat. -/
def FromAgents (kaiguan : Nat → Bool) (t : Table) : Event → Prop
  | .chupai s args => t.status = .cp → t.play.curP = s → s ∈ t.seats ∧ t.Offers kaiguan s args
  | _ => True

/-- In a game without wildcards no play that reaches a table in its turn has a list of them. -/
def WithoutLz (t : Table) : Event → Prop
  | .chupai s args => t.status = .cp → t.play.curP = s → t.NoEmptyLz args
  | _ => True

abbrev FromClients (kaiguan : Nat → Bool) (F : NumFormat) (cfg : Config) (t : Table) : Prop :=
  Reach (Table.step F) (fun t e => t.Legal e ∧ t.FromAgents kaiguan e) (newTable cfg) t

abbrev FromClientsWithoutLz (kaiguan : Nat → Bool) (F : NumFormat) (cfg : Config) (t : Table) :
    Prop :=
  Reach (Table.step F) (fun t e => (t.Legal e ∧ t.FromAgents kaiguan e) ∧ t.WithoutLz e)
    (newTable cfg) t

theorem played_of_clients (h : FromClientsWithoutLz kaiguan F cfg t) : Played kaiguan F cfg t := by
  refine h.mono fun t e he => ⟨he.1.1, ?_⟩
  cases e with
  | chupai s args =>
      intro hstatus hturn
      obtain ⟨hs, ho⟩ := he.1.2 hstatus hturn
      exact ⟨hs, ho, he.2 hstatus hturn⟩
  | _ => trivial

theorem clients_after {events : List Event}
    (h : Allowed (Table.step .exact) (fun t e => t.Legal e ∧ NoPlay e) (newTable cfg) events) :
    FromClientsWithoutLz kaiguan .exact cfg (after cfg events) := by
  refine (reach_run h).mono fun t e he => ?_
  cases e with
  | chupai s args => exact he.2.elim
  | _ => exact ⟨⟨he.1, trivial⟩, trivial⟩

theorem FromClientsWithoutLz.clients (h : FromClientsWithoutLz kaiguan F cfg t) :
    FromClients kaiguan F cfg t :=
  h.mono fun _ _ he => he.1

theorem requestChupai_of_check (a : Agent) (cpList : Option CpList) (merged : List Nat)
    (laziNum : Nat) (p : PaiType)
    (hcheck : (a.cancelAuto.checkChupai p.type cpList).toOption = some (merged, laziNum))
    (hp : getPaiType merged laziNum = some (some p)) :
    (a.requestChupai p.type cpList).2 = .called (.chupai a.seatNum
      { type := p.type, keyPai := p.pai, cpList, mergeCpList := merged, laziNum }) := by
  unfold Agent.requestChupai
  dsimp only
  cases hc : a.cancelAuto.checkChupai p.type cpList with
  | error o =>
      rw [hc] at hcheck
      cases hcheck
  | ok r =>
      rw [hc] at hcheck
      obtain rfl := Option.some.inj hcheck
      dsimp only
      rw [hp]
      dsimp only
      rw [if_neg (not_not.mpr rfl)]
      rfl

/-- The play is what the seat's agent sends for a request with these cards. -/
def Requested (kaiguan : Nat → Bool) (t : Table) : Event → Prop
  | .chupai s a => s ∈ t.seats ∧ (t.agent kaiguan s).seatNum = s ∧
      ((t.agent kaiguan s).cancelAuto.checkChupai a.type a.cpList).toOption =
        some (a.mergeCpList, a.laziNum) ∧
      getPaiType a.mergeCpList a.laziNum = some (some ⟨a.type, a.keyPai⟩)
  | _ => True

instance (t : Table) : ∀ e, Decidable (t.Requested kaiguan e) := by
  rintro (_ | _) <;> unfold Requested <;> infer_instance

theorem clients_requested {events : List Event}
    (h : Allowed (Table.step .exact) (fun t e => t.Legal e ∧ t.Requested kaiguan e)
      (newTable cfg) events) :
    FromClients kaiguan .exact cfg (after cfg events) := by
  refine (reach_run h).mono fun t e ⟨hlegal, he⟩ => ⟨hlegal, ?_⟩
  cases e with
  | chupai s args =>
      obtain ⟨hs, hseat, hcheck, hp⟩ := he
      have hcalled := requestChupai_of_check _ _ _ _ ⟨args.type, args.keyPai⟩ hcheck hp
      rw [hseat] at hcalled
      exact fun _ _ => ⟨hs, .inl ⟨args.type, args.cpList, hcalled⟩⟩
  | _ => trivial

/-! ## A lost card -/

def erLead : List Event :=
  erCall ++ [.erQiangDizhu 2 0, .update 0]

def emptyLzPlay (type : Nat) (keyPai ids : List Nat) : ChupaiArgs :=
  { type, keyPai, cpList := some { nor := some ids, lz := some [] }, mergeCpList := ids }

def emptyLzRun : List Event := erLead ++ [.chupai 1 (emptyLzPlay 1 [6] [16])]

theorem fromClients_emptyLz :
    FromClients kaiguanNor .exact erConfig (after erConfig emptyLzRun) :=
  clients_requested (by decide +kernel)

/-! ## The cards -/

/-- In a dealt hand the piles are disjoint and together the deck, of 54 cards or of 46, and the
counters are right. -/
theorem cards_conserved (h : FromClientsWithoutLz kaiguan F cfg t) (hdealt : ¬ t.Fresh) :
    t.piles.Pairwise Disjoint ∧
      (∀ id, id ∈ deck t.cfg.gameType ↔ ∃ pile ∈ t.piles, id ∈ pile) ∧
      (t.piles.map Finset.card).sum = (if t.cfg.gameType = .er then 46 else 54) ∧
      ∀ s ∈ t.cfg.seatList, t.play.remainPai s = (t.play.pai s).card := by
  have hc := (played_of_clients h).conserved hdealt
  refine ⟨hc.disjoint_union.1, hc.disjoint_union.2, ?_, hc.remain⟩
  have hsum := congrArg Multiset.card hc.splits
  rw [Multiset.coe_card] at hsum
  have hpiles (l : List (Finset Nat)) :
      Multiset.card (l.map Finset.val).sum = (l.map Finset.card).sum := by
    induction l with
    | nil => rfl
    | cons pile l ih =>
        rw [List.map_cons, List.sum_cons, Multiset.card_add, ih, List.map_cons, List.sum_cons]
        rfl
  rw [← hpiles, hsum, length_deck]

/-- The room has taken the six from the hand, and still counts it. -/
theorem card_miscounted : FromClients kaiguanNor .exact erConfig (after erConfig emptyLzRun) ∧
    ¬ (after erConfig emptyLzRun).Fresh ∧
    (after erConfig emptyLzRun).play.remainPai 1 = 20 ∧
    ((after erConfig emptyLzRun).play.pai 1).card = 19 := by
  have hcards : ((after erConfig emptyLzRun).play.pai 1).card = 19 := by decide +kernel
  refine ⟨fromClients_emptyLz, fun h => ?_, by decide +kernel, hcards⟩
  rw [h.1] at hcards
  cases hcards

theorem clients_autoLead : FromClientsWithoutLz kaiguanNor .exact {} (after {} autoLead) := by
  have hlead : FromClientsWithoutLz kaiguanNor .exact {} (after {} leadTurn) :=
    clients_after (by decide +kernel)
  obtain ⟨hs, ho, hempty⟩ := validated_leadPlay
  exact .tail hlead ⟨⟨by decide +kernel, fun _ _ => ⟨hs, ho⟩⟩, fun _ _ => hempty⟩

theorem cards_conserved_lead :
    ((after {} autoLead).piles.map Finset.card).sum = 54 ∧
      (after {} autoLead).play.remainPai 1 = ((after {} autoLead).play.pai 1).card := by
  obtain ⟨-, -, hsum, hremain⟩ := cards_conserved clients_autoLead dealt_autoLead
  exact ⟨hsum, hremain 1 (by decide +kernel)⟩

/-! ## The agents -/

/-- An agent that has been shown its cards has those of the table; its counters are those of the
table; and with three seats it counts for each rank the cards that the other two hold. -/
theorem copies_agree (h : FromClientsWithoutLz kaiguan F cfg t) (hdealt : ¬ t.Fresh) {s : Nat}
    (hs : s ∈ t.seats) (hseat : s ∈ t.cfg.seatList) :
    ((t.cfg.isMld → t.pKanPai s = true) →
      (t.agent kaiguan s).paiData = some (handData (t.play.pai s))) ∧
      (∃ remain, (t.agent kaiguan s).remainPai = some remain ∧
        ∀ p ∈ t.cfg.seatList, remain p = t.play.remainPai p) ∧
      (t.cfg.seatCount = 3 → t.dzTaken = true →
        ∃ count, (t.agent kaiguan s).jipaiqi = some count ∧
          ∀ r, count r = ((t.cfg.seatList.filter (· ≠ s)).map fun p =>
            getPaiTypeHash (t.play.pai p) r).sum) := by
  have hcons := (played_of_clients h).conserved hdealt
  have hf := (played_of_clients h).follows hdealt hs hseat
  refine ⟨hf.paiData, hf.remainPai, fun hseats hdz => ⟨_, hf.jipaiqi hdz, fun r => ?_⟩⟩
  rw [unseen_eq_held hcons hdz hseat r, held, Config.seatList, hseats]
  rfl

/-- The agent of the first seat has a card that the table has not; and an agent of the blind mode
has none before its seat has looked. -/
theorem copies_apart :
    (FromClients kaiguanNor .exact erConfig (after erConfig emptyLzRun) ∧
      16 ∉ (after erConfig emptyLzRun).play.pai 1 ∧
      ((after erConfig emptyLzRun).agent kaiguanNor 1).paiData.any (16 ∈ ·.pai) = true) ∧
    FromClients kaiguanNor .exact mldConfig (after mldConfig lookFirst) ∧
      ((after mldConfig lookFirst).play.pai 2).card = 17 ∧
      ((after mldConfig lookFirst).agent kaiguanNor 2).paiData.isNone = true :=
  ⟨⟨fromClients_emptyLz, by decide +kernel, by decide +kernel⟩,
    (clients_after (by decide +kernel)).clients, by decide +kernel, by decide +kernel⟩

theorem copies_agree_lead :
    ((after {} autoLead).agent kaiguanNor 2).paiData =
        some (handData ((after {} autoLead).play.pai 2)) ∧
      ∃ count, ((after {} autoLead).agent kaiguanNor 2).jipaiqi = some count ∧ count 3 = 4 := by
  obtain ⟨hdata, -, hcount⟩ := copies_agree clients_autoLead dealt_autoLead (s := 2)
    (by decide +kernel) (by decide +kernel)
  obtain ⟨count, hjipaiqi, hothers⟩ := hcount (by decide +kernel) (by decide +kernel)
  refine ⟨hdata fun hmld => absurd hmld (by decide), count, hjipaiqi, ?_⟩
  rw [hothers 3]
  decide +kernel

/-! ## The actions -/

/-- The two actions that an agent keeps decide what all actions of the table decide, and the play to
beat is the same. -/
theorem window_refines (h : FromClientsWithoutLz kaiguan F cfg t) (hdealt : ¬ t.Fresh) {s : Nat}
    (hs : s ∈ t.seats) (hseat : s ∈ t.cfg.seatList) :
    isMustChupai t.cfg.gameType (t.agent kaiguan s).actList =
        isMustChupai t.cfg.gameType t.play.actList ∧
      (isMustChupai t.cfg.gameType t.play.actList = false →
        ∃ pos act last,
          getRealChupaiPosByAct t.cfg.gameType (t.agent kaiguan s).actList = some pos ∧
          (t.agent kaiguan s).actList[pos - 1]? = some act ∧
          lastChupai t.play.actList = some last ∧ act.play = last.play) := by
  have hf := (played_of_clients h).follows hdealt hs hseat
  refine ⟨hf.acts.isMustChupai _, fun hmust => ?_⟩
  obtain ⟨pos, act, hpos, hact, hlast, -, -⟩ := hf.toBeat hmust
  exact ⟨pos, act, act, hpos, hact, hlast, rfl⟩

/-- For the agent the seat must still play; for the table it may pass on its own play. -/
theorem window_apart : FromClients kaiguanNor .exact erConfig (after erConfig emptyLzRun) ∧
    isMustChupai .er ((after erConfig emptyLzRun).agent kaiguanNor 1).actList = true ∧
    isMustChupai .er (after erConfig emptyLzRun).play.actList = false :=
  ⟨fromClients_emptyLz, by decide +kernel, by decide +kernel⟩

theorem window_refines_lead :
    isMustChupai .nor ((after {} autoLead).agent kaiguanNor 2).actList = false ∧
      ∃ last, lastChupai (after {} autoLead).play.actList = some last ∧ last.play = ⟨1, [7]⟩ := by
  obtain ⟨hmust, hbeat⟩ := window_refines clients_autoLead dealt_autoLead (s := 2)
    (by decide +kernel) (by decide +kernel)
  have hfree : isMustChupai .nor (after {} autoLead).play.actList = false := by decide +kernel
  obtain ⟨-, -, last, -, -, hlast, -⟩ := hbeat hfree
  exact ⟨hmust.trans hfree, last, hlast, by
    have hplay : (lastChupai (after {} autoLead).play.actList).map Act.play = some ⟨1, [7]⟩ := by
      decide +kernel
    rw [hlast] at hplay
    exact Option.some.inj hplay⟩

/-! ## The end of a hand -/

/-- While cards are left, the table accepts at most as many plays and passes as there are seats
times cards left before one of them ends the hand. -/
theorem plays_run_out (h : FromClientsWithoutLz kaiguan F cfg t) (hcp : t.AtCp)
    (hleft : 0 < t.cardsLeft) {es : List Event}
    (hes : Allowed (Table.step F) (GoesOnWith kaiguan F) t es) :
    plays F t es ≤ t.cfg.seatCount * t.cardsLeft :=
  (plays_le (played_of_clients h) hcp hleft hes).trans (Nat.sub_le _ _)

theorem plays_run_out_around : plays .exact (after {} leadTurn) aroundTable ≤
    (after {} leadTurn).cfg.seatCount * (after {} leadTurn).cardsLeft :=
  plays_run_out (clients_after (by decide +kernel)) (.inl (by decide +kernel)) (by decide +kernel)
    goesOn_aroundTable

/-- Each seat loses its hand in three plays, and the first seat passes between. -/
def lostHands : List Event :=
  erLead ++ [.chupai 1 (emptyLzPlay 8 [7, 14, 16] [17, 18, 19, 20, 53, 45]),
    .chupai 1 (emptyLzPlay 8 [8, 6, 9] [21, 22, 23, 24, 16, 25]),
    .chupai 1 (emptyLzPlay 9 [15, 13, 14] [49, 50, 51, 52, 43, 44, 47, 48]),
    .chupai 1 passPlay, .update 0,
    .chupai 2 (emptyLzPlay 5 [6, 5] [13, 14, 15, 11, 12]),
    .chupai 2 (emptyLzPlay 9 [12, 5, 13] [37, 38, 39, 40, 41, 42, 9, 10]),
    .chupai 2 (emptyLzPlay 13 [11] [33, 34, 35, 36])]

/-- No seat has a card left, and the second seat passes. -/
theorem pass_without_cards : FromClients kaiguanNor .exact erConfig
      (after erConfig (lostHands ++ [.chupai 2 passPlay])) ∧
    (after erConfig lostHands).status = .cp ∧ (after erConfig lostHands).cardsLeft = 0 ∧
    ((after erConfig lostHands).answer .exact (.chupai 2 passPlay)).result = some 0 ∧
    (after erConfig (lostHands ++ [.chupai 2 passPlay])).AtCp ∧
    ¬ plays .exact (after erConfig lostHands) [.chupai 2 passPlay] ≤
      (after erConfig lostHands).cfg.seatCount * (after erConfig lostHands).cardsLeft :=
  ⟨clients_requested (by decide +kernel), by decide +kernel, by decide +kernel, by decide +kernel,
    by decide +kernel, by decide +kernel⟩

end Table

end JyQipai.Ddz
