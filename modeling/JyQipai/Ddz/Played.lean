import JyQipai.Ddz.Validated

/-!
# Hands played by agents

In the runs in which every play comes from an agent, no card is lost, the agents know what the
table has, and their two actions decide what all actions decide.
-/

namespace JyQipai.Ddz

open JyQipai.Lib
open Table (ChupaiArgs)

namespace Table

variable {kaiguan : Nat → Bool} {F : NumFormat} {cfg : Config} {t : Table}

/-! ## Runs -/

def NoPlay : Event → Prop
  | .chupai _ _ => False
  | _ => True

instance : ∀ e, Decidable (NoPlay e) := by
  rintro (_ | _) <;> unfold NoPlay <;> infer_instance

theorem NoPlay.validated {e : Event} (h : NoPlay e) : t.Validated kaiguan e := by
  cases e with
  | chupai seat args => exact h.elim
  | _ => trivial

theorem played_after {events : List Event}
    (h : Allowed (Table.step .exact) (fun t e => t.Legal e ∧ NoPlay e) (newTable cfg) events) :
    Played kaiguan .exact cfg (after cfg events) :=
  (reach_run h).mono fun _ _ he => ⟨he.1, he.2.validated⟩

theorem Played.auto {s : Nat} {args : ChupaiArgs} (h : Played kaiguan F cfg t)
    (hlegal : t.Legal (.chupai s args)) (hs : s ∈ t.seats) (hosted : Bool)
    (ho : (t.agent kaiguan s).autoCp (isMustChupai t.cfg.gameType t.play.actList) hosted =
      some args)
    (hempty : t.NoEmptyLz args) : Played kaiguan F cfg (t.step F (.chupai s args)) :=
  .tail h ⟨hlegal, fun _ _ => ⟨hs, .inr ⟨hosted, ho⟩, hempty⟩⟩

def leadTurn : List Event := bidThree ++ [.update 0]

def leadPlay : ChupaiArgs :=
  { type := 1, keyPai := [7], cpList := some { nor := some [17] }, mergeCpList := [17] }

def autoLead : List Event := leadTurn ++ [.chupai 1 leadPlay]

theorem played_leadTurn : Played kaiguanNor .exact {} (after {} leadTurn) :=
  played_after (by decide +kernel)

theorem validated_leadPlay : 1 ∈ (after {} leadTurn).seats ∧
    (after {} leadTurn).Offers kaiguanNor 1 leadPlay ∧ (after {} leadTurn).NoEmptyLz leadPlay := by
  refine ⟨by decide +kernel, .inr ⟨false, by decide +kernel⟩, ?_⟩
  rintro - - cp hcp
  obtain rfl := Option.some.inj hcp
  rfl

theorem played_autoLead : Played kaiguanNor .exact {} (after {} autoLead) :=
  .tail played_leadTurn ⟨by decide +kernel, fun _ _ => validated_leadPlay⟩

theorem Played.conserved (h : Played kaiguan F cfg t) (hdealt : ¬ t.Fresh) : t.Conserved :=
  h.synced.2.1.hand.resolve_left hdealt

theorem Played.follows (h : Played kaiguan F cfg t) (hdealt : ¬ t.Fresh) {s : Nat}
    (hs : s ∈ t.seats) (hseat : s ∈ t.cfg.seatList) : Follows t s (t.agent kaiguan s) :=
  h.synced.2.2.follows (h.conserved hdealt) s hs hseat

/-! ## The cards -/

/-- In every run in which the plays come from the agents, the cards are as their status has them,
and no card of a dealt hand is lost, doubled or miscounted. -/
theorem deck_accounted (h : Played kaiguan F cfg t) :
    t.CardsFor t.status ∧
      (t.Fresh ∨ t.piles.Pairwise Disjoint ∧
        (∀ id, id ∈ deck t.cfg.gameType ↔ ∃ pile ∈ t.piles, id ∈ pile) ∧
        ∀ s ∈ t.cfg.seatList, t.play.remainPai s = (t.play.pai s).card) := by
  obtain ⟨-, hcards, -⟩ := h.synced
  refine ⟨hcards.status, hcards.hand.imp_right fun hc => ?_⟩
  exact ⟨hc.disjoint_union.1, hc.disjoint_union.2, hc.remain⟩

theorem dealt_autoLead : ¬ (after {} autoLead).Fresh := fun h => by
  have hplayed : (after {} autoLead).played ≠ ∅ := by decide +kernel
  exact hplayed h.2.1

theorem deck_accounted_lead : (after {} autoLead).play.remainPai 1 = 19 ∧
    (after {} autoLead).play.remainPai 1 = ((after {} autoLead).play.pai 1).card := by
  obtain ⟨-, -, hcount⟩ := (deck_accounted played_autoLead).2.resolve_left dealt_autoLead
  exact ⟨by decide +kernel, hcount 1 (by decide +kernel)⟩

/-! ## The agents -/

def held (t : Table) (s type : Nat) : Nat :=
  (([1, 2, 3].filter (· ≠ s)).map fun p => getPaiTypeHash (t.play.pai p) type).sum

theorem getAllPaiCount_eq (g : GameType) (type : Nat) :
    getAllPaiCount g type = ((deck g).countP fun id => paiMap id = type : Nat) := by
  by_cases htype : type ∈ paiRanks
  · have hall : ∀ type ∈ paiRanks,
        getAllPaiCount g type = ((deck g).countP fun id => paiMap id = type : Nat) := by
      cases g <;> decide +kernel
    exact hall type htype
  · have hzero : (deck g).countP (fun id => paiMap id = type) = 0 := by
      rw [List.countP_eq_zero]
      intro id hid hrank
      apply htype
      rw [← of_decide_eq_true hrank]
      exact paiMap_mem_paiRanks (mem_deck hid).1 (mem_deck hid).2
    rw [hzero, getAllPaiCount]
    rw [mem_paiRanks] at htype
    rw [if_neg (by omega)]
    split_ifs <;> omega

theorem unseen_eq_held (h : t.Conserved) (hdz : t.dzTaken = true) {s : Nat}
    (hs : s ∈ t.cfg.seatList) (type : Nat) : t.unseen s type = t.held s type := by
  have hbottom : t.bottom = ∅ := by simp [bottom, hdz]
  have hsplit := congrArg (Multiset.countP fun id => paiMap id = type) h.splits
  simp only [piles, hbottom, List.map_cons, List.map_nil, List.sum_cons, List.sum_nil,
    Multiset.countP_add, Finset.empty_val, add_zero, Multiset.coe_countP] at hsplit
  have hhash (pile : Finset Nat) :
      pile.val.countP (fun id => paiMap id = type) = getPaiTypeHash pile type := by
    rw [Multiset.countP_eq_card_filter, ← Finset.filter_val]
    rfl
  simp only [hhash] at hsplit
  rw [unseen, getAllPaiCount_eq, ← hsplit]
  have hs' := mem_three hs
  simp only [List.mem_cons, List.not_mem_nil, or_false] at hs'
  rcases hs' with rfl | rfl | rfl <;> simp [held] <;> ring

/-- An agent that has processed the messages of the table knows the hand as the table has it: its
own cards as soon as it has been shown them, the landlord, the number of cards of each seat, and
from the play on how many cards of each rank the others hold. -/
theorem agents_follow (h : Played kaiguan F cfg t) (hdealt : ¬ t.Fresh) {s : Nat}
    (hs : s ∈ t.seats) (hseat : s ∈ t.cfg.seatList) :
    (t.agent kaiguan s).paiData =
        (if t.cfg.isMld ∧ t.pKanPai s = false then none else some (handData (t.play.pai s))) ∧
      (t.agent kaiguan s).dizhu = t.play.dizhu ∧
      (∃ remain, (t.agent kaiguan s).remainPai = some remain ∧
        ∀ p ∈ t.cfg.seatList, remain p = (t.play.pai p).card) ∧
      (t.dzTaken = true → ∃ count, (t.agent kaiguan s).jipaiqi = some count ∧
        ∀ type, count type = t.held s type) := by
  have hcons := h.conserved hdealt
  have hf := h.follows hdealt hs hseat
  refine ⟨?_, hf.dizhu, ?_, fun hdz => ⟨_, hf.jipaiqi hdz, fun type => ?_⟩⟩
  · split
    · next hhidden =>
      refine hf.hidden fun hshown => ?_
      have hkan := hshown hhidden.1
      rw [hhidden.2] at hkan
      cases hkan
    · next hshown =>
      refine hf.paiData fun hmld => ?_
      rw [← Bool.not_eq_false]
      exact fun hkan => hshown ⟨hmld, hkan⟩
  · obtain ⟨remain, hremain, hall⟩ := hf.remainPai
    exact ⟨remain, hremain, fun p hp => (hall p hp).trans (hcons.remain p hp)⟩
  · exact unseen_eq_held hcons hdz hseat type

theorem agents_follow_lead :
    ((after {} autoLead).agent kaiguanNor 2).paiData =
        some (handData ((after {} autoLead).play.pai 2)) ∧
      ∃ count, ((after {} autoLead).agent kaiguanNor 2).jipaiqi = some count ∧ count 3 = 4 := by
  obtain ⟨hdata, -, -, hcount⟩ := agents_follow played_autoLead dealt_autoLead (s := 2)
    (by decide +kernel) (by decide +kernel)
  obtain ⟨count, hjipaiqi, hheld⟩ := hcount (by decide +kernel)
  have hthree : (after {} autoLead).held 2 3 = 4 := by decide +kernel
  exact ⟨hdata, count, hjipaiqi, by rw [hheld, hthree]; rfl⟩

/-- The last two actions of an agent decide what all actions of the hand decide: whether the seat
must play, and which play it has to beat. -/
theorem window_decides (h : Played kaiguan F cfg t) (hdealt : ¬ t.Fresh) {s : Nat}
    (hs : s ∈ t.seats) (hseat : s ∈ t.cfg.seatList) :
    isMustChupai t.cfg.gameType (t.agent kaiguan s).actList =
        isMustChupai t.cfg.gameType t.play.actList ∧
      (isMustChupai t.cfg.gameType t.play.actList = false →
        ∃ pos act, getRealChupaiPosByAct t.cfg.gameType (t.agent kaiguan s).actList = some pos ∧
          (t.agent kaiguan s).actList[pos - 1]? = some act ∧
          lastChupai t.play.actList = some act) := by
  have hf := h.follows hdealt hs hseat
  refine ⟨hf.acts.isMustChupai _, fun hmust => ?_⟩
  obtain ⟨pos, act, hpos, hact, hlast, -, -⟩ := hf.toBeat hmust
  exact ⟨pos, act, hpos, hact, hlast⟩

theorem window_decides_lead :
    isMustChupai .nor (after {} autoLead).play.actList = false ∧
      ∃ pos act,
        getRealChupaiPosByAct .nor ((after {} autoLead).agent kaiguanNor 2).actList = some pos ∧
        ((after {} autoLead).agent kaiguanNor 2).actList[pos - 1]? = some act ∧
        lastChupai (after {} autoLead).play.actList = some act := by
  have hmust : isMustChupai .nor (after {} autoLead).play.actList = false := by decide +kernel
  exact ⟨hmust, (window_decides played_autoLead dealt_autoLead (s := 2) (by decide +kernel)
    (by decide +kernel)).2 hmust⟩

end Table

end JyQipai.Ddz
