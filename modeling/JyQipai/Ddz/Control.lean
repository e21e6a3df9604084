import JyQipai.Ddz.Room
import JyQipai.Ddz.ZeroSum
import JyQipai.Ddz.Rule
import JyQipai.Lib.Piles
import JyQipai.Lib.Reach

/-!
# The control invariant of a table

What holds of a table in each status, over every run: where the hand has no
landlord yet, which actions the action list holds, and that the landlord's rate
is the sum of the farmers' rates once there is a landlord.
-/

namespace JyQipai.Ddz

open JyQipai.Lib

def Act.IsBid (a : Act) : Prop := 100 ≤ a.type

def Act.play (a : Act) : PaiType := ⟨a.type, a.pai⟩

/-- An action list is a bidding followed by plays; the first play is no
pass. -/
def History (l : List Act) : Prop :=
  ∃ bids plays, l = bids ++ plays ∧ (∀ a ∈ bids, a.IsBid) ∧
    (∀ a ∈ plays, a.play.Wf) ∧ ∀ a ∈ plays.head?, a.type ≠ 0

namespace Table

def Undealt (t : Table) : Prop :=
  t.play = {} ∧ (t.cfg.isMld → ∀ s, t.daoLaData s = none)

def Bidding (t : Table) : Prop :=
  t.play.dizhu = 0 ∧ ∀ a ∈ t.play.actList, a.IsBid

def Doubling (t : Table) : Prop :=
  t.play.dizhu ≠ 0 ∧ ∀ a ∈ t.play.actList, a.IsBid

def MayEnter (t : Table) : Status → Prop
  | .waitP | .ready | .gameBegin | .fp => t.Undealt
  | .jdz => t.Bidding ∧ t.cfg.isMld = false
  | .erQiangdizhu =>
      t.Bidding ∧ t.cfg.gameType = .er ∧ t.play.curP ∈ t.cfg.seatList
  | .mldMen => t.Bidding ∧ t.cfg.isMld ∧ ∀ s, t.daoLaData s = none
  | .jiabei => t.Doubling ∧ t.cfg.gameType ≠ .er ∧ t.cfg.isMld = false
  | .createLz => t.Doubling ∧ t.cfg.gameType = .lz
  | .mldJb =>
      t.Doubling ∧ t.cfg.isMld ∧ t.daoLaData t.play.dizhu = none ∧
        ((∀ s, t.daoLaData s = none) ∨
          ∀ s ∈ t.others, (t.daoLaData s).isSome)
  | .cp => t.play.dizhu ≠ 0
  | _ => True

/-- What a table fulfils while it is in a status.  In `mld_jb` it is the
landlord's turn only after both farmers have answered; in `fp` the cards are
dealt at some point. -/
def InStatus (t : Table) : Status → Prop
  | .mldJb =>
      t.Doubling ∧ t.cfg.isMld ∧ t.daoLaData t.play.dizhu = none ∧
        (t.play.curP = 4 ∨ t.play.curP = t.play.dizhu) ∧
        (t.play.curP = t.play.dizhu → ∀ s ∈ t.others, (t.daoLaData s).isSome)
  | .fp => True
  | status => t.MayEnter status

def RateSum (t : Table) : Prop :=
  t.cfg.gameType ≠ .er →
    t.pRate t.play.dizhu = (t.others.map t.pRate).sum

structure Base (t : Table) : Prop where
  seats : ∀ a ∈ t.play.actList, a.p ∈ t.cfg.seatList
  history : History t.play.actList
  dizhu : t.play.dizhu ≠ 0 →
    t.play.dizhu ∈ t.cfg.seatList ∧ t.nongmin = t.others ∧ t.RateSum

structure Inv (t : Table) : Prop where
  base : t.Base
  status : t.InStatus t.status
  next : t.time → ∀ s ∈ t.nextStatus, t.MayEnter s
  timer : t.time → t.status = .wait ∨ t.status = .fp ∨ t.status = .settlement
  dealing : t.updating = some .fapai →
    t.Undealt ∧ (t.status = .fp ∨ t.status = .wait)
  paying : t.updating = some .score → t.status = .settlement ∨ t.status = .wait

/-- The events that the agents of a table and its manager can cause.  Agents
send their own seat number, announce themselves ready only between two hands,
and play cards whose key cards fit their type. -/
def Legal (t : Table) : Event → Prop
  | .ready seat => seat ∈ t.cfg.seatList ∧ (t.status = .waitP ∨ t.status = .ready)
  | .jiaoDizhu seat _ => seat ∈ t.cfg.seatList
  | .jiabei seat _ => seat ∈ t.cfg.seatList
  | .men seat _ => seat ∈ t.cfg.seatList
  | .zhuaPai seat _ => seat ∈ t.cfg.seatList
  | .daoLa seat _ => seat ∈ t.cfg.seatList
  | .erQiangDizhu seat _ => seat ∈ t.cfg.seatList
  | .chupai seat a => seat ∈ t.cfg.seatList ∧ (PaiType.mk a.type a.keyPai).Wf
  | _ => True

instance (t : Table) : ∀ e, Decidable (t.Legal e) := by
  rintro (_ | _) <;> unfold Legal <;> infer_instance

section Rates

variable {t u : Table}

theorem others_congr (hc : u.cfg = t.cfg) (hd : u.play.dizhu = t.play.dizhu) :
    u.others = t.others := by
  unfold others
  rw [hc, hd]

theorem RateSum.congr (h : t.RateSum) (hc : u.cfg = t.cfg)
    (hd : u.play.dizhu = t.play.dizhu) (hr : u.pRate = t.pRate) : u.RateSum := by
  intro hgame
  rw [hd, hr, others_congr hc hd]
  exact h (hc ▸ hgame)

theorem RateSum.of_update {r : Nat → Nat}
    (hr : u.pRate = Function.update r u.play.dizhu (u.others.map r).sum) :
    u.RateSum := by
  intro _
  have hmap : u.others.map u.pRate = u.others.map r := by
    refine List.map_congr_left fun f hf => ?_
    rw [hr, Function.update_of_ne]
    rintro rfl
    exact u.dizhu_notMem_others hf
  rw [hmap, hr, Function.update_self]

theorem RateSum.of_mul (h : t.RateSum) (hd : t.play.dizhu ∈ t.cfg.seatList)
    (hc : u.cfg = t.cfg) (hdz : u.play.dizhu = t.play.dizhu) {k : Nat}
    (hr : ∀ s ∈ t.cfg.seatList, u.pRate s = t.pRate s * k) : u.RateSum := by
  intro hgame
  have hmap : t.others.map u.pRate = t.others.map fun f => t.pRate f * k :=
    List.map_congr_left fun f hf => hr f (List.mem_filter.mp hf).1
  rw [others_congr hc hdz, hmap, List.sum_map_mul_right, hdz, hr _ hd,
    ← h (hc ▸ hgame)]

theorem RateSum.chuntian (h : t.RateSum) (hd : t.play.dizhu ∈ t.cfg.seatList)
    (w : Nat) : (t.chuntian w).RateSum :=
  h.of_mul hd (by simp) (by simp) (k := if t.isSpring w then 2 else 1)
    fun s hs => by simp [hs]

theorem RateSum.fixRate (h : t.RateSum) : t.fixRate.RateSum := by
  by_cases hf : t.cfg.fengDing = 0
  · exact h.congr (by simp) (by simp) (by simp [hf])
  · by_cases her : t.cfg.gameType = .er
    · intro hgame
      exact absurd (by simpa using her) hgame
    · exact RateSum.of_update (r := t.cappedRate t.others)
        (by simp [hf, her, others])

end Rates

section Settles

variable {t u v : Table}

/-- The effect of `settlement` on the control state: it waits for an answer, or
it starts the timer for the payment. -/
def SettlesCtrl (c d : Ctrl) : Prop :=
  ∃ p, d = { c with pending := p } ∨
    d = { c with
      pending := p
      status := .wait
      nextStatus := some .settlement
      time := true }

structure SameHand (t u : Table) : Prop where
  cfg : u.cfg = t.cfg
  play : u.play = t.play
  outbox : u.outbox = t.outbox
  toMld : u.toMld = t.toMld
  toLobby : u.toLobby = t.toLobby
  toRaces : u.toRaces = t.toRaces
  hand : u.nongmin = t.nongmin ∧ u.laizi = t.laizi
  cards : u.played = t.played ∧ u.dzTaken = t.dzTaken
  origin : ∀ f, u.origin f = t.origin f ∨
    f = .isChuntian ∧ u.origin f = .thisHand
  stale : t.origin .nongmin ≠ .earlierHand → u.staleRead = t.staleRead

/-- `settlement` changes only rates, awards and the spring flag, and keeps the
sum of the rates. -/
structure Settles (t u : Table) : Prop extends SameHand t u where
  rate : t.play.dizhu ∈ t.cfg.seatList → t.RateSum → u.RateSum
  ctrl : SettlesCtrl t.toCtrl u.toCtrl

theorem Settles.daoLaData (h : Settles t u) : u.daoLaData = t.daoLaData := by
  rw [h.toMld]

theorem SameHand.nongmin (h : SameHand t u) :
    u.origin .nongmin = t.origin .nongmin := by
  rcases h.origin .nongmin with hf | ⟨hf, -⟩
  · exact hf
  · cases hf

theorem SameHand.trans (h : SameHand t u) (h' : SameHand u v) : SameHand t v where
  cfg := h'.cfg.trans h.cfg
  play := h'.play.trans h.play
  outbox := h'.outbox.trans h.outbox
  toMld := h'.toMld.trans h.toMld
  toLobby := h'.toLobby.trans h.toLobby
  toRaces := h'.toRaces.trans h.toRaces
  hand := ⟨h'.hand.1.trans h.hand.1, h'.hand.2.trans h.hand.2⟩
  cards := ⟨h'.cards.1.trans h.cards.1, h'.cards.2.trans h.cards.2⟩
  origin f := by
    rcases h'.origin f with hf | hf
    · rw [hf]
      exact h.origin f
    · exact .inr hf
  stale hn := (h'.stale (h.nongmin ▸ hn)).trans (h.stale hn)

theorem settleAwards_sameHand (t : Table) (w : Nat) :
    SameHand t (t.settleAwards w) ∧ (t.settleAwards w).toCtrl = t.toCtrl := by
  unfold settleAwards
  split
  · exact ⟨⟨rfl, rfl, rfl, rfl, rfl, rfl, ⟨rfl, rfl⟩, ⟨rfl, rfl⟩,
      fun _ => .inl rfl, fun _ => rfl⟩, rfl⟩
  · have horigin : ∀ f, ((t.winAwards w).checkBaopei).origin f = t.origin f ∨
        f = .isChuntian ∧ ((t.winAwards w).checkBaopei).origin f = .thisHand := by
      intro f
      simp only [checkBaopei_toTrace, readIf_toTrace, winAwards_toTrace,
        fixRate_toTrace, chuntian_toTrace, mulRate_toTrace, writeIf_toTrace]
      split
      · next hw =>
        simp only [Bool.and_eq_true, beq_iff_eq] at hw
        exact .inr ⟨hw.2, rfl⟩
      · exact .inl rfl
    refine ⟨⟨by simp, by simp, by simp, by simp, by simp, by simp, by simp,
      by simp, horigin, fun hn => ?_⟩, by simp⟩
    simp [hn]

theorem RateSum.settleAwards (h : t.RateSum)
    (hd : t.play.dizhu ∈ t.cfg.seatList) (w : Nat) :
    (t.settleAwards w).RateSum := by
  unfold Table.settleAwards
  split
  · exact h.congr rfl rfl rfl
  · exact (h.chuntian hd w).fixRate.congr (by simp) (by simp) (by simp)

structure OnlyAwards (t u : Table) : Prop extends SameHand t u where
  pRate : u.pRate = t.pRate

theorem Settles.of_awards (h : Settles t u) (hu : OnlyAwards u v)
    (hctrl : SettlesCtrl t.toCtrl v.toCtrl) : Settles t v where
  toSameHand := h.toSameHand.trans hu.toSameHand
  rate hd hr := (h.rate hd hr).congr hu.cfg (by rw [hu.play]) hu.pRate
  ctrl := hctrl

theorem settles_settleAwards (t : Table) (w : Nat) :
    Settles t (t.settleAwards w) := by
  obtain ⟨hsame, hctrl⟩ := t.settleAwards_sameHand w
  exact ⟨hsame, fun hd hr => hr.settleAwards hd w,
    ⟨t.pending, .inl (by rw [hctrl])⟩⟩

theorem onlyAwards_settlementEnd (t : Table) : OnlyAwards t t.settlementEnd := by
  refine ⟨⟨?_, ?_, ?_, ?_, ?_, ?_, ?_, ?_, fun _ => .inl ?_, fun _ => ?_⟩, ?_⟩ <;>
    simp

theorem settles_settlement (t : Table) (w : Nat) :
    Settles t (t.settlement w) := by
  have h := t.settles_settleAwards w
  obtain ⟨-, hctrl⟩ := t.settleAwards_sameHand w
  have hend : SettlesCtrl t.toCtrl (t.settleAwards w).settlementEnd.toCtrl :=
    ⟨t.pending, .inr (by simp [hctrl])⟩
  unfold settlement
  dsimp only
  split
  · split
    · split
      · refine h.of_awards ?_ ⟨t.pending, .inr (by simp [hctrl])⟩
        refine ⟨⟨?_, ?_, ?_, ?_, ?_, ?_, ?_, ?_, fun _ => .inl ?_, fun _ => ?_⟩,
          ?_⟩ <;> simp
      · exact h.of_awards ⟨⟨rfl, rfl, rfl, rfl, rfl, rfl, ⟨rfl, rfl⟩, ⟨rfl, rfl⟩,
          fun _ => .inl rfl, fun _ => rfl⟩, rfl⟩ ⟨_, .inl (by rw [hctrl])⟩
    · split
      · exact h.of_awards ⟨⟨rfl, rfl, rfl, rfl, rfl, rfl, ⟨rfl, rfl⟩, ⟨rfl, rfl⟩,
          fun _ => .inl rfl, fun _ => rfl⟩, rfl⟩ ⟨_, .inl (by rw [hctrl])⟩
      · exact h.of_awards (onlyAwards_settlementEnd _) hend
  · exact h.of_awards (onlyAwards_settlementEnd _) hend

theorem settles_resumeSettlement (t : Table) (answer : Int) (call : Pending) :
    Settles t (t.resumeSettlement answer call) := by
  have h : Settles t t :=
    ⟨⟨rfl, rfl, rfl, rfl, rfl, rfl, ⟨rfl, rfl⟩, ⟨rfl, rfl⟩, fun _ => .inl rfl,
      fun _ => rfl⟩, fun _ hr => hr, ⟨t.pending, .inl rfl⟩⟩
  unfold resumeSettlement
  split
  · split
    · exact h
    · dsimp only
      split
      · refine h.of_awards ?_ ⟨t.pending, .inr (by simp)⟩
        refine ⟨⟨?_, ?_, ?_, ?_, ?_, ?_, ?_, ?_, fun _ => .inl ?_, fun _ => ?_⟩,
          ?_⟩ <;> simp
      · exact h.of_awards ⟨⟨rfl, rfl, rfl, rfl, rfl, rfl, ⟨rfl, rfl⟩, ⟨rfl, rfl⟩,
          fun _ => .inl rfl, fun _ => rfl⟩, rfl⟩ ⟨_, .inl rfl⟩
  · split
    · exact h
    · refine h.of_awards ?_ ⟨t.pending, .inr (by simp)⟩
      refine ⟨⟨?_, ?_, ?_, ?_, ?_, ?_, ?_, ?_, fun _ => .inl ?_, fun _ => ?_⟩,
        ?_⟩ <;> simp
  · exact h

end Settles

section Enter

variable {t u : Table} {s : Status}

theorem Base.of_rates (h : t.Base) (hc : u.cfg = t.cfg)
    (ha : u.play.actList = t.play.actList) (hd : u.play.dizhu = t.play.dizhu)
    (hn : u.nongmin = t.nongmin)
    (hr : t.play.dizhu ∈ t.cfg.seatList → t.RateSum → u.RateSum) : u.Base where
  seats := by
    rw [ha, hc]
    exact h.seats
  history := by
    rw [ha]
    exact h.history
  dizhu hdz := by
    rw [hd] at hdz
    obtain ⟨hmem, hnm, hsum⟩ := h.dizhu hdz
    rw [hd, hc, hn, others_congr hc hd]
    exact ⟨hmem, hnm, hr hmem hsum⟩

theorem Base.congr (h : t.Base) (hc : u.cfg = t.cfg)
    (ha : u.play.actList = t.play.actList) (hd : u.play.dizhu = t.play.dizhu)
    (hh : u.nongmin = t.nongmin ∧ u.pRate = t.pRate) : u.Base :=
  h.of_rates hc ha hd hh.1 fun _ hsum => hsum.congr hc hd hh.2

theorem mayEnter_congr (hc : u.cfg = t.cfg) (hp : u.play = t.play)
    (hd : u.daoLaData = t.daoLaData) (s : Status) :
    u.MayEnter s ↔ t.MayEnter s := by
  cases s <;>
    simp only [MayEnter, Undealt, Bidding, Doubling, others, hc, hp, hd]

theorem inStatus_congr (hc : u.cfg = t.cfg) (hp : u.play = t.play)
    (hd : u.daoLaData = t.daoLaData) (s : Status) :
    u.InStatus s ↔ t.InStatus s := by
  cases s <;>
    simp only [InStatus, MayEnter, Undealt, Bidding, Doubling, others, hc, hp, hd]

theorem undealt_congr (hc : u.cfg = t.cfg) (hp : u.play = t.play)
    (hd : u.daoLaData = t.daoLaData) : u.Undealt ↔ t.Undealt := by
  simp only [Undealt, hc, hp, hd]

theorem Inv.congr (h : t.Inv) (hc : u.cfg = t.cfg) (hp : u.play = t.play)
    (hh : u.nongmin = t.nongmin ∧ u.pRate = t.pRate)
    (hd : u.daoLaData = t.daoLaData) (hctrl : u.toCtrl = t.toCtrl) : u.Inv := by
  have hbase : u.Base := h.base.congr hc (by rw [hp]) (by rw [hp]) hh
  constructor
  · exact hbase
  · rw [inStatus_congr hc hp hd, hctrl]
    exact h.status
  · intro ht s hs
    rw [mayEnter_congr hc hp hd]
    rw [hctrl] at ht hs
    exact h.next ht s hs
  · rw [hctrl]
    exact h.timer
  · rw [hctrl, undealt_congr hc hp hd]
    exact h.dealing
  · rw [hctrl]
    exact h.paying

theorem Inv.of_wait (h : t.Base) (hs : t.MayEnter s)
    (hf : t.updating = some .fapai → t.Undealt) : (t.wait s).Inv where
  base := h.congr rfl rfl rfl ⟨rfl, rfl⟩
  status := trivial
  next := by
    rintro - s' hs'
    obtain rfl := Option.some.inj hs'
    exact (mayEnter_congr rfl rfl rfl s).mpr hs
  timer _ := .inl rfl
  dealing hu := ⟨(undealt_congr rfl rfl rfl).mpr (hf hu), .inr rfl⟩
  paying _ := .inr rfl

theorem Inv.of_wait_idle (h : t.Base) (hs : t.MayEnter s)
    (hu : t.updating = none) : (t.wait s).Inv :=
  Inv.of_wait h hs fun hu' => by simp [hu] at hu'

theorem Inv.of_enter (h : t.Base) (hs : t.InStatus s) (hst : t.status = s)
    (ht : t.time = false) (hu : t.updating = none) : t.Inv where
  base := h
  status := hst ▸ hs
  next ht' := by simp [ht] at ht'
  timer ht' := by simp [ht] at ht'
  dealing hu' := by simp [hu] at hu'
  paying hu' := by simp [hu] at hu'

theorem Inv.of_later (h : t.Base) (hs : t.MayEnter s)
    (hst : t.status = .wait ∨ t.status = .fp ∨ t.status = .settlement)
    (hu : t.updating = none) : (t.later s).Inv where
  base := h.congr rfl rfl rfl ⟨rfl, rfl⟩
  status := by
    rw [later_toCtrl]
    rcases hst with hst | hst | hst <;> rw [hst] <;> trivial
  next := by
    rintro - s' hs'
    obtain rfl := Option.some.inj hs'
    exact (mayEnter_congr rfl rfl rfl s).mpr hs
  timer _ := hst
  dealing hu' := by simp [hu] at hu'
  paying hu' := by simp [hu] at hu'

theorem Inv.sendAll (h : t.Inv) (m : Nat → Msg) : (t.sendAll m).Inv :=
  h.congr rfl rfl ⟨rfl, rfl⟩ rfl rfl

theorem Inv.quiet (h : t.Inv) (hs : t.status ≠ .wait) (hf : t.status ≠ .fp)
    (hse : t.status ≠ .settlement) : t.time = false ∧ t.updating = none := by
  constructor
  · by_contra ht
    rcases h.timer (by simpa using ht) with h | h | h <;> contradiction
  · cases hu : t.updating with
    | none => rfl
    | some c =>
        cases c with
        | fapai => rcases (h.dealing hu).2 with h | h <;> contradiction
        | score => rcases h.paying hu with h | h <;> contradiction

theorem Inv.settles (h : t.Inv) (hu : Settles t u) : u.Inv := by
  have hbase : u.Base := h.base.of_rates hu.cfg (by rw [hu.play])
    (by rw [hu.play]) hu.hand.1 hu.rate
  obtain ⟨p, hctrl | hctrl⟩ := hu.ctrl
  · have hstatus : u.InStatus t.status ↔ t.InStatus t.status :=
      inStatus_congr hu.cfg hu.play hu.daoLaData _
    constructor
    · exact hbase
    · rw [hctrl]
      exact hstatus.mpr h.status
    · intro ht s hs
      rw [mayEnter_congr hu.cfg hu.play hu.daoLaData]
      rw [hctrl] at ht hs
      exact h.next ht s hs
    · rw [hctrl]
      exact h.timer
    · rw [hctrl, undealt_congr hu.cfg hu.play hu.daoLaData]
      exact h.dealing
    · rw [hctrl]
      exact h.paying
  · constructor
    · exact hbase
    · rw [hctrl]
      trivial
    · intro _ s hs
      rw [hctrl] at hs
      obtain rfl := Option.some.inj hs
      trivial
    · intro _
      exact .inl (by rw [hctrl])
    · intro hf
      rw [hctrl] at hf
      rw [undealt_congr hu.cfg hu.play hu.daoLaData]
      exact ⟨(h.dealing hf).1, .inr (by rw [hctrl])⟩
    · intro _
      exact .inr (by rw [hctrl])

end Enter

section NewHand

variable {t u : Table}

theorem history_of_bids {l : List Act} (h : ∀ a ∈ l, a.IsBid) : History l :=
  ⟨l, [], by simp, h, by simp, by simp⟩

theorem base_of_bidding (h : t.Bidding)
    (hseats : ∀ a ∈ t.play.actList, a.p ∈ t.cfg.seatList) : t.Base :=
  ⟨hseats, history_of_bids h.2, fun hd => absurd h.1 hd⟩

theorem base_of_undealt (h : t.Undealt) : t.Base :=
  base_of_bidding ⟨by rw [h.1], by simp [h.1]⟩ (by simp [h.1])

theorem undealt_resetHand (t : Table) : t.resetHand.Undealt := by
  refine ⟨by simp, fun hmld s => ?_⟩
  rw [resetHand_cfg] at hmld
  simp [hmld]

theorem Inv.gameBegin (h : t.Undealt) : t.gameBegin.Inv := by
  have hund : ((t.enter .gameBegin).sendAll fun _ =>
      .begin t.curRace).Undealt := (undealt_congr rfl rfl rfl).mpr h
  exact Inv.of_wait (base_of_undealt hund) hund fun _ => hund

theorem newGame_inv (t : Table) (again : Bool)
    (hu : again = false → t.updating = none) : (t.newGame again).Inv := by
  unfold newGame
  dsimp only
  split
  · exact Inv.gameBegin (undealt_resetHand _)
  · next hagain =>
    have hund := undealt_resetHand { t with
      reFapaiNum := if again then t.reFapaiNum + 1 else t.reFapaiNum
      curRace := if again then t.curRace else t.curRace + 1 }
    have hup := hu (by simpa using hagain)
    split
    · exact Inv.of_enter (s := .waitP) (base_of_undealt hund) hund rfl rfl hup
    · exact Inv.of_enter (s := .ready) (base_of_undealt hund) hund rfl rfl hup

theorem newTable_inv (cfg : Config) : (newTable cfg).Inv :=
  newGame_inv _ false fun _ => rfl

theorem Inv.join (h : t.Inv) (id : Nat) (seat : Option Nat) :
    (t.join id seat).table.Inv := by
  unfold Table.join
  split
  · exact h
  · split
    · exact h
    · exact h.congr rfl rfl ⟨rfl, rfl⟩ rfl rfl

theorem Inv.playerExitGame (h : t.Inv) (seat : Nat) :
    (t.playerExitGame seat).table.Inv := by
  unfold Table.playerExitGame
  dsimp only
  split
  · exact h.sendAll _
  · exact h.congr rfl rfl ⟨rfl, rfl⟩ rfl rfl

theorem Inv.readyCmd (h : t.Inv) (seat : Nat)
    (hs : t.status = .waitP ∨ t.status = .ready) :
    (t.readyCmd seat).table.Inv := by
  have hund : t.Undealt := by
    have := h.status
    rcases hs with hs | hs <;> rw [hs] at this <;> exact this
  unfold Table.readyCmd
  dsimp only
  split
  · split
    · exact Inv.gameBegin ((undealt_congr rfl rfl rfl).mpr hund)
    · exact h.congr rfl rfl ⟨rfl, rfl⟩ rfl rfl
  · exact h

theorem Inv.fapai (h : t.Inv) (hu : t.updating = some .fapai) (ρ : Nat → Nat)
    (rand : Nat) : ({ t with updating := none }.fapai ρ rand).Inv := by
  obtain ⟨⟨hplay, hdao⟩, hst⟩ := h.dealing hu
  have hst' : t.status = .wait ∨ t.status = .fp ∨ t.status = .settlement := by
    rcases hst with hst | hst <;> simp [hst]
  unfold Table.fapai
  dsimp only
  set u : Table := getDzCandidate
    { t with
      updating := none
      play := norFapai (xipai t.cfg ρ) t.play 17 } rand with hu'
  have hact : u.play.actList = [] := by simp [hu', norFapai, hplay]
  have hbid : u.Bidding := ⟨by simp [hu', norFapai, hplay], by simp [hact]⟩
  have hbase : u.Base := base_of_bidding hbid (by simp [hact])
  split
  · next hmld =>
    refine Inv.of_later (hbase.congr rfl rfl rfl ⟨rfl, rfl⟩) ?_ hst' rfl
    exact ⟨hbid, hmld, hdao hmld⟩
  · next hmld =>
    refine Inv.of_later (hbase.congr rfl rfl rfl ⟨rfl, rfl⟩) ?_ hst' rfl
    exact ⟨hbid, by simpa using hmld⟩

end NewHand

section Dizhu

variable {t u : Table} {d : Nat}

theorem nongminOf_eq (hd : d ∈ t.cfg.seatList) :
    nongminOf t.cfg.seatCount d = t.cfg.seatList.filter fun s => s ≠ d := by
  rcases t.cfg.seat_cases with ⟨-, hc, hl⟩ | ⟨-, hc, hl⟩
  all_goals
    rw [hl] at hd ⊢
    rw [hc]
    simp only [List.mem_cons, List.not_mem_nil, or_false] at hd
  · rcases hd with rfl | rfl | rfl <;> rfl
  · rcases hd with rfl | rfl <;> rfl

@[simp] theorem setDizhu_cfg (t : Table) (d : Nat) (men : Option Nat) :
    (t.setDizhu d men).cfg = t.cfg := by
  simp [setDizhu, libSetDizhu]

@[simp] theorem setDizhu_dizhu (t : Table) (d : Nat) (men : Option Nat) :
    (t.setDizhu d men).play.dizhu = d := by
  simp [setDizhu, libSetDizhu]

@[simp] theorem setDizhu_curP (t : Table) (d : Nat) (men : Option Nat) :
    (t.setDizhu d men).play.curP = d := by
  simp [setDizhu, libSetDizhu]

@[simp] theorem setDizhu_actList (t : Table) (d : Nat) (men : Option Nat) :
    (t.setDizhu d men).play.actList = t.play.actList := by
  simp [setDizhu, libSetDizhu]

@[simp] theorem setDizhu_toCtrl (t : Table) (d : Nat) (men : Option Nat) :
    (t.setDizhu d men).toCtrl = t.toCtrl := by
  simp [setDizhu, libSetDizhu]

@[simp] theorem setDizhu_daoLaData (t : Table) (d : Nat) (men : Option Nat) :
    (t.setDizhu d men).daoLaData = t.daoLaData := by
  simp [setDizhu, libSetDizhu]

@[simp] theorem setDizhu_nongmin (t : Table) (d : Nat) (men : Option Nat) :
    (t.setDizhu d men).nongmin = nongminOf t.cfg.seatCount d := by
  simp [setDizhu, libSetDizhu]

theorem rateSum_setDizhu (t : Table) (d : Nat) (men : Option Nat) :
    (t.setDizhu d men).RateSum := by
  intro hgame
  rw [setDizhu_cfg] at hgame
  refine RateSum.of_update (r := (t.mulRate (max (t.pJdz d) 1)).pRate) ?_
    (by simpa using hgame)
  simp [setDizhu, libSetDizhu, others, hgame]

theorem Base.setDizhu (h : t.Base) (hd : d ∈ t.cfg.seatList)
    (men : Option Nat) : (t.setDizhu d men).Base where
  seats := by simpa using h.seats
  history := by simpa using h.history
  dizhu _ := by
    refine ⟨by simpa using hd, ?_, rateSum_setDizhu t d men⟩
    rw [setDizhu_nongmin, nongminOf_eq hd]
    simp [others]

theorem Doubling.setDizhu (h : ∀ a ∈ t.play.actList, a.IsBid)
    (hd : d ∈ t.cfg.seatList) (men : Option Nat) :
    (t.setDizhu d men).Doubling := by
  refine ⟨?_, by simpa using h⟩
  rw [setDizhu_dizhu]
  exact t.cfg.seat_pos hd

end Dizhu

section Bid

variable {t u : Table} {p rate : Nat} {a : Act}

theorem maxBid_mem {l : List Act} (h : 0 < (maxBid l).1) :
    ∃ a ∈ l, a.p = (maxBid l).2 ∧ a.rate = (maxBid l).1 := by
  have hfold : ∀ (l : List Act) (m : Nat × Nat),
      l.foldl (fun m a => if m.1 < a.rate then (a.rate, a.p) else m) m = m ∨
        ∃ a ∈ l, (a.rate, a.p) =
          l.foldl (fun m a => if m.1 < a.rate then (a.rate, a.p) else m) m := by
    intro l
    induction l with
    | nil => exact fun m => .inl rfl
    | cons b l ih =>
        intro m
        simp only [List.foldl_cons]
        rcases ih (if m.1 < b.rate then (b.rate, b.p) else m) with heq | ⟨a, ha, hp⟩
        · rw [heq]
          split
          · exact .inr ⟨b, List.mem_cons_self, rfl⟩
          · exact .inl rfl
        · exact .inr ⟨a, List.mem_cons_of_mem _ ha, hp⟩
  rcases hfold l.reverse (0, 0) with heq | ⟨a, ha, hp⟩
  · rw [maxBid, heq] at h
    exact absurd h (lt_irrefl 0)
  · exact ⟨a, List.mem_reverse.mp ha, congrArg Prod.snd hp, congrArg Prod.fst hp⟩

theorem guo_mem (h : t.play.curP ∈ t.cfg.seatList) :
    t.guo.play.curP ∈ t.guo.cfg.seatList := by
  simp only [guo_cfg, guo_play]
  rw [Config.seatList, List.mem_range'_1] at h ⊢
  split <;> omega

structure Bids (t u : Table) (a : Act) : Prop where
  cfg : u.cfg = t.cfg
  dizhu : u.play.dizhu = t.play.dizhu
  actList : u.play.actList = t.play.actList ++ [a]
  daoLaData : u.daoLaData = t.daoLaData
  toCtrl : u.toCtrl = t.toCtrl

theorem Bids.bidding (h : Bids t u a) (ht : t.Bidding) (ha : a.IsBid) :
    u.Bidding := by
  refine ⟨h.dizhu.trans ht.1, ?_⟩
  rw [h.actList]
  simpa [or_imp, forall_and] using ⟨ht.2, ha⟩

theorem Bids.seats (h : Bids t u a) (ht : t.Base)
    (ha : a.p ∈ t.cfg.seatList) : ∀ b ∈ u.play.actList, b.p ∈ u.cfg.seatList := by
  rw [h.actList, h.cfg]
  simpa [or_imp, forall_and] using ⟨ht.seats, ha⟩

theorem libJiaoDizhu_spec (h : t.Base) (hp : p ∈ t.cfg.seatList) (rate : Nat) :
    ((t.libJiaoDizhu p rate).2 = t ∧ 999 < (t.libJiaoDizhu p rate).1) ∨
      ∃ r, Bids t (t.libJiaoDizhu p rate).2 ⟨OtherType.jdz, p, r, [], 0, none, []⟩ ∧
        ((t.libJiaoDizhu p rate).1 = -1 ∨ (t.libJiaoDizhu p rate).1 = 0 ∨
          ∃ d ∈ t.cfg.seatList, (t.libJiaoDizhu p rate).1 = (d : Int) ∧
            (t.cfg.gameType = .er →
              (t.libJiaoDizhu p rate).2.play.curP ∈ t.cfg.seatList)) := by
  unfold libJiaoDizhu
  split
  · next her =>
    unfold erJiaoDizhu
    split
    · exact .inl ⟨rfl, by simp⟩
    · next hcur =>
      refine .inr ⟨min rate 1, ?_⟩
      have hbids : Bids t (t.addBid p (min rate 1)).guo
          ⟨OtherType.jdz, p, min rate 1, [], 0, none, []⟩ := by
        constructor <;> simp
      have hmem : (t.addBid p (min rate 1)).guo.play.curP ∈ t.cfg.seatList := by
        have := guo_mem (t := t.addBid p (min rate 1)) (by simp_all)
        simpa using this
      dsimp only
      split
      · exact ⟨hbids, .inr (.inr ⟨p, hp, rfl, fun _ => hmem⟩)⟩
      · split
        · exact ⟨by constructor <;> simp, .inl rfl⟩
        · exact ⟨hbids, .inr (.inl rfl)⟩
  · next hne =>
    unfold norJiaoDizhu
    split
    · exact .inl ⟨rfl, by simp⟩
    · dsimp only
      split
      · exact .inl ⟨rfl, by simp⟩
      · refine .inr ⟨rate, ?_⟩
        split
        · exact ⟨by constructor <;> simp,
            .inr (.inr ⟨p, hp, rfl, fun her => absurd her hne⟩)⟩
        · split
          · refine ⟨by constructor <;> simp, ?_⟩
            by_cases hr : rate = 0
            · simp only [hr, ne_eq, not_true_eq_false, if_false]
              split
              · next hmax =>
                obtain ⟨b, hb, hbp, -⟩ := maxBid_mem hmax
                exact .inr (.inr ⟨b.p, h.seats b hb, by rw [hbp],
                  fun her => absurd her hne⟩)
              · exact .inl rfl
            · simp only [ne_eq, hr, not_false_eq_true, if_true]
              rw [if_pos (Nat.pos_of_ne_zero hr)]
              exact .inr (.inr ⟨p, hp, rfl, fun her => absurd her hne⟩)
          · exact ⟨by constructor <;> simp, .inr (.inl rfl)⟩

theorem Inv.noDizhu (h : t.Inv) : t.noDizhu.Inv := by
  unfold Table.noDizhu
  dsimp only
  split
  · refine Inv.settles ?_ (settles_settlement _ _)
    exact h.congr rfl rfl ⟨rfl, rfl⟩ rfl rfl
  · exact newGame_inv _ true (by simp)

theorem Inv.afterBidding (h : t.Base) (hd : t.Doubling)
    (hgame : t.cfg.gameType ≠ .er) (hmld : t.cfg.isMld = false)
    (hu : t.updating = none) : t.afterBidding.Inv := by
  unfold Table.afterBidding
  split
  · exact Inv.of_wait_idle h ⟨hd, hgame, hmld⟩ hu
  · split
    · next hlz => exact Inv.of_wait_idle h ⟨hd, hlz⟩ hu
    · exact Inv.of_wait_idle (h.congr rfl rfl rfl ⟨rfl, rfl⟩) hd.1 hu

/-- The table after `jiao_dizhu` of the library, with the bid announced. -/
def jdzTable (t : Table) (p rate : Nat) : Table :=
  let u := (t.libJiaoDizhu p rate).2
  u.sendAll fun _ => .jdz u.lastAct

theorem jiaoDizhu_cases (h : t.Base) (hp : p ∈ t.cfg.seatList) (rate : Nat) :
    (t.jiaoDizhu p rate).table = t ∨
      t.status = .jdz ∧
      (∃ r, Bids t (t.jdzTable p rate)
        ⟨OtherType.jdz, p, r, [], 0, none, []⟩) ∧
      ((t.jiaoDizhu p rate).table = (t.jdzTable p rate).noDizhu ∨
        (t.jiaoDizhu p rate).table = (t.jdzTable p rate).wait .jdz ∨
        (t.cfg.gameType = .er ∧ (t.jdzTable p rate).play.curP ∈ t.cfg.seatList ∧
          (t.jiaoDizhu p rate).table = (t.jdzTable p rate).wait .erQiangdizhu) ∨
        (∃ d ∈ t.cfg.seatList, t.cfg.gameType = .er ∧
          (t.jiaoDizhu p rate).table =
            ((t.jdzTable p rate).setDizhu d none).wait .cp) ∨
        ∃ d ∈ t.cfg.seatList, t.cfg.gameType ≠ .er ∧
          (t.jiaoDizhu p rate).table =
            ((t.jdzTable p rate).setDizhu d none).afterBidding) := by
  unfold Table.jiaoDizhu
  split
  · exact .inl rfl
  · next hs =>
    have hspec := libJiaoDizhu_spec h hp rate
    unfold jdzTable
    generalize t.libJiaoDizhu p rate = q at hspec
    obtain ⟨st, u⟩ := q
    rcases hspec with ⟨hu, hst⟩ | ⟨r, hbids, hres⟩
    · dsimp only at hu hst ⊢
      rw [if_pos hst]
      exact .inl hu
    · refine .inr ⟨by simpa using hs, ?_⟩
      have hlt : ¬ 999 < st := by
        rcases hres with hres | hres | ⟨d, hd, hres, -⟩
        · simp at hres
          omega
        · simp at hres
          omega
        · have := t.cfg.seat_le hd
          simp at hres
          omega
      dsimp only at hbids hres ⊢
      rw [if_neg hlt]
      set v := u.sendAll fun _ => .jdz u.lastAct with hv
      have hbids : Bids t v _ :=
        ⟨hbids.cfg, hbids.dizhu, hbids.actList, hbids.daoLaData, hbids.toCtrl⟩
      refine ⟨⟨r, hbids⟩, ?_⟩
      rcases hres with hres | hres | ⟨d, hd, hres, hcur⟩
      · rw [if_pos hres]
        exact .inl rfl
      · rw [hres, if_neg (by decide), if_neg (by decide)]
        exact .inr (.inl rfl)
      · have hdpos := t.cfg.seat_pos hd
        rw [if_neg (by omega), if_pos (by omega), hbids.cfg]
        split
        · next her =>
          have hl := (t.cfg.seat_cases.resolve_left fun h => h.1 her).2.2
          split
          · refine .inr (.inr (.inr (.inl ⟨_, ?_, her, rfl⟩)))
            rw [hl]
            split <;> simp
          · exact .inr (.inr (.inl ⟨her, hcur her, rfl⟩))
        · next hne =>
          refine .inr (.inr (.inr (.inr ⟨d, hd, hne, ?_⟩)))
          rw [show st.toNat = d by omega]
          rfl

theorem Inv.jiaoDizhu (h : t.Inv) (hp : p ∈ t.cfg.seatList) (rate : Nat) :
    (t.jiaoDizhu p rate).table.Inv := by
  rcases jiaoDizhu_cases h.base hp rate with heq | ⟨hs, ⟨r, hbids⟩, hres⟩
  · rw [heq]
    exact h
  generalize (t.jiaoDizhu p rate).table = T at hres
  generalize t.jdzTable p rate = v at hbids hres
  have hst := h.status
  rw [hs] at hst
  obtain ⟨hbidding, hmld⟩ := hst
  obtain ⟨htime, hup⟩ := h.quiet (by simp [hs]) (by simp [hs]) (by simp [hs])
  have hvbid : v.Bidding := hbids.bidding hbidding (Nat.le_refl 100)
  have hbase : v.Base := base_of_bidding hvbid (hbids.seats h.base hp)
  have hvmld : v.cfg.isMld = false := by rw [hbids.cfg, hmld]
  have hvup : v.updating = none := by rw [hbids.toCtrl, hup]
  have hvs : v.status = .jdz := by rw [hbids.toCtrl, hs]
  have hland : ∀ {d}, d ∈ t.cfg.seatList →
      (v.setDizhu d none).Base ∧ (v.setDizhu d none).Doubling := by
    intro d hd
    rw [← hbids.cfg] at hd
    exact ⟨hbase.setDizhu hd none, Doubling.setDizhu hvbid.2 hd none⟩
  rcases hres with rfl | rfl | ⟨her, hcur, rfl⟩ | ⟨d, hd, -, rfl⟩ | ⟨d, hd, hne, rfl⟩
  · refine Inv.noDizhu ?_
    exact Inv.of_enter (s := .jdz) hbase ⟨hvbid, hvmld⟩ hvs
      (by rw [hbids.toCtrl, htime]) hvup
  · exact Inv.of_wait_idle hbase ⟨hvbid, hvmld⟩ hvup
  · rw [← hbids.cfg] at her hcur
    exact Inv.of_wait_idle hbase ⟨hvbid, her, hcur⟩ hvup
  · exact Inv.of_wait_idle (hland hd).1 (hland hd).2.1 (by simpa using hvup)
  · rw [← hbids.cfg] at hne
    exact Inv.afterBidding (hland hd).1 (hland hd).2 (by simpa using hne)
      (by simpa using hvmld) (by simpa using hvup)

theorem libErQiangDizhu_spec (t : Table) (p rate : Nat) :
    ∃ v, Bids t v ⟨OtherType.erQdz, p, rate, [], 0, none, []⟩ ∧
      v.play.curP = t.play.curP ∧
      (t.libErQiangDizhu p rate = (t.play.curP, v) ∨
        t.libErQiangDizhu p rate = (if t.play.curP = 1 then 2 else 1, v) ∨
        t.libErQiangDizhu p rate = (0, v.guo)) := by
  unfold libErQiangDizhu
  dsimp only
  split
  · split
    · exact ⟨_, by constructor <;> simp, by simp, .inl rfl⟩
    · exact ⟨_, by constructor <;> simp, by simp, .inr (.inr rfl)⟩
  · exact ⟨_, by constructor <;> simp, by simp, .inr (.inl rfl)⟩

/-- The table after `er_qiang_dizhu` of the library, with the call
announced. -/
def erQdzTable (t : Table) (p rate : Nat) : Table :=
  let u := (t.libErQiangDizhu p rate).2
  u.sendAll fun _ => .erQdz u.lastAct

theorem erQiangDizhu_cases (her : t.cfg.gameType = .er)
    (hcur : t.play.curP ∈ t.cfg.seatList) (p rate : Nat) :
    (t.erQiangDizhu p rate).table = t ∨
      t.status = .erQiangdizhu ∧
      Bids t (t.erQdzTable p rate) ⟨OtherType.erQdz, p, rate, [], 0, none, []⟩ ∧
      ((∃ d ∈ t.cfg.seatList, (t.erQiangDizhu p rate).table =
          ((t.erQdzTable p rate).setDizhu d none).wait .cp) ∨
        ((t.erQdzTable p rate).play.curP ∈ t.cfg.seatList ∧
          (t.erQiangDizhu p rate).table =
            (t.erQdzTable p rate).wait .erQiangdizhu)) := by
  unfold Table.erQiangDizhu
  split
  · exact .inl rfl
  · next hs =>
    refine .inr ⟨by simpa using hs, ?_⟩
    unfold erQdzTable
    obtain ⟨v, hbids, hvcur, hspec⟩ := t.libErQiangDizhu_spec p rate
    have hl := (t.cfg.seat_cases.resolve_left fun h => h.1 her).2.2
    rcases hspec with heq | heq | heq
    · rw [heq]
      refine ⟨⟨hbids.cfg, hbids.dizhu, hbids.actList, hbids.daoLaData,
        hbids.toCtrl⟩, .inl ⟨_, hcur, ?_⟩⟩
      exact congrArg Reply.table (if_pos (Nat.pos_of_ne_zero (t.cfg.seat_pos hcur)))
    · rw [heq]
      refine ⟨⟨hbids.cfg, hbids.dizhu, hbids.actList, hbids.daoLaData,
        hbids.toCtrl⟩, .inl ⟨if t.play.curP = 1 then 2 else 1, ?_, ?_⟩⟩
      · rw [hl]
        split <;> simp
      · exact congrArg Reply.table (if_pos (by split <;> omega))
    · rw [heq]
      have hmem := guo_mem (t := v) (by rw [hvcur, hbids.cfg]; exact hcur)
      refine ⟨⟨hbids.cfg, by simpa using hbids.dizhu, by simpa using hbids.actList,
        by simpa using hbids.daoLaData, by simpa using hbids.toCtrl⟩, .inr ⟨?_, ?_⟩⟩
      · rw [guo_cfg, hbids.cfg] at hmem
        exact hmem
      · exact congrArg Reply.table (if_neg (lt_irrefl 0))

theorem Inv.erQiangDizhu (h : t.Inv) (hp : p ∈ t.cfg.seatList) (rate : Nat) :
    (t.erQiangDizhu p rate).table.Inv := by
  by_cases hs : t.status = .erQiangdizhu
  · have hst := h.status
    rw [hs] at hst
    obtain ⟨hbidding, her, hcur⟩ := hst
    obtain ⟨-, hup⟩ := h.quiet (by simp [hs]) (by simp [hs]) (by simp [hs])
    rcases erQiangDizhu_cases her hcur p rate with heq | ⟨-, hbids, hres⟩
    · rw [heq]
      exact h
    generalize (t.erQiangDizhu p rate).table = T at hres
    generalize t.erQdzTable p rate = v at hbids hres
    have hvbid : v.Bidding := hbids.bidding hbidding (by simp [Act.IsBid, OtherType.erQdz])
    have hbase : v.Base := base_of_bidding hvbid (hbids.seats h.base hp)
    have hvup : v.updating = none := by rw [hbids.toCtrl, hup]
    rw [← hbids.cfg] at her
    rcases hres with ⟨d, hd, rfl⟩ | ⟨hcur', rfl⟩
    · rw [← hbids.cfg] at hd
      exact Inv.of_wait_idle (hbase.setDizhu hd none)
        (Doubling.setDizhu hvbid.2 hd none).1 (by simpa using hvup)
    · rw [← hbids.cfg] at hcur'
      exact Inv.of_wait_idle hbase ⟨hvbid, her, hcur'⟩ hvup
  · rw [Table.erQiangDizhu, if_pos hs]
    exact h

end Bid

section Double

variable {t u : Table} {p rate : Nat} {a : Act}

theorem Doubling.of_append (h : t.Doubling) (hd : u.play.dizhu = t.play.dizhu)
    (ha : u.play.actList = t.play.actList ++ [a]) (hbid : a.IsBid) :
    u.Doubling := by
  refine ⟨by rw [hd]; exact h.1, ?_⟩
  rw [ha]
  simpa [or_imp, forall_and] using ⟨h.2, hbid⟩

theorem Base.of_append (h : t.Base) (hdouble : t.Doubling) (hc : u.cfg = t.cfg)
    (hd : u.play.dizhu = t.play.dizhu)
    (ha : u.play.actList = t.play.actList ++ [a]) (hbid : a.IsBid)
    (hp : a.p ∈ t.cfg.seatList) (hn : u.nongmin = t.nongmin)
    (hsum : t.RateSum → u.RateSum) : u.Base where
  seats := by
    rw [ha, hc]
    simpa [or_imp, forall_and] using ⟨h.seats, hp⟩
  history := history_of_bids (hdouble.of_append hd ha hbid).2
  dizhu hdz := by
    rw [hd] at hdz
    obtain ⟨hmem, hnm, hrate⟩ := h.dizhu hdz
    rw [hd, hc, hn, others_congr hc hd]
    exact ⟨hmem, hnm, hsum hrate⟩

theorem mem_others (hp : p ∈ t.cfg.seatList) (hne : p ≠ t.play.dizhu) :
    p ∈ t.others := by
  simpa [others] using ⟨hp, hne⟩

theorem RateSum.jiabeiRate (h : t.RateSum) (hp : p ∈ t.cfg.seatList)
    (hd : t.play.dizhu ∈ t.cfg.seatList) (rate : Nat)
    (hc : u.cfg = t.cfg) (hdz : u.play.dizhu = t.play.dizhu)
    (hr : u.pRate = t.jiabeiRate p rate) : u.RateSum := by
  by_cases h0 : rate = 0
  · exact h.congr hc hdz (by simp [hr, Table.jiabeiRate, h0])
  by_cases hpd : t.play.dizhu = p
  · refine h.of_mul hd hc hdz (k := rate) fun s hs => ?_
    have hs' : 1 ≤ s ∧ s ≤ 3 := by
      rcases t.cfg.seat_cases with ⟨-, -, hl⟩ | ⟨-, -, hl⟩ <;>
        rw [hl] at hs <;> simp at hs <;> omega
    simp [hr, Table.jiabeiRate, h0, hpd, hs']
  · intro hgame
    have hsum := h (hc ▸ hgame)
    have hmem := mem_others hp (Ne.symm hpd)
    have hmap := sum_map_update t.others_nodup hmem t.pRate (t.pRate p * rate)
    have hother : t.others.map u.pRate =
        t.others.map (Function.update t.pRate p (t.pRate p * rate)) := by
      refine List.map_congr_left fun f hf => ?_
      have hfd : f ≠ t.play.dizhu := by
        rintro rfl
        exact t.dizhu_notMem_others hf
      simp [hr, Table.jiabeiRate, h0, hpd, hfd]
    rw [others_congr hc hdz, hother, hdz]
    simp only [hr, Table.jiabeiRate, h0, hpd, if_false, Function.update_self,
      Function.update_of_ne hpd]
    omega

theorem Inv.jiabei (h : t.Inv) (hp : p ∈ t.cfg.seatList) (rate : Nat) :
    (t.jiabei p rate).table.Inv := by
  unfold Table.jiabei
  split
  · exact h
  · next hs =>
    replace hs : t.status = .jiabei := by
      simp only [not_or, not_not] at hs
      exact hs.1
    have hst := h.status
    rw [hs] at hst
    obtain ⟨hdouble, hgame, hmld⟩ := hst
    obtain ⟨htime, hup⟩ := h.quiet (by simp [hs]) (by simp [hs]) (by simp [hs])
    unfold libJiabei
    dsimp only
    set a : Act := { type := OtherType.jiabei, p := p, rate := rate } with ha
    set u : Table := { t.addAct a with
      pRate := (t.addAct a).jiabeiRate p rate
      pJiabei := Function.update t.pJiabei p (some rate) } with hu
    have hbid : a.IsBid := by simp [Act.IsBid, ha, OtherType.jiabei]
    have hactList : u.play.actList = t.play.actList ++ [a] := rfl
    have hudouble : u.Doubling := hdouble.of_append rfl hactList hbid
    have hbase : u.Base := by
      refine h.base.of_append hdouble rfl rfl hactList hbid hp rfl fun hsum => ?_
      exact hsum.jiabeiRate hp (h.base.dizhu hdouble.1).1 rate rfl rfl rfl
    split
    · split
      · next hlz =>
        exact Inv.of_wait_idle (hbase.congr rfl rfl rfl ⟨rfl, rfl⟩) ⟨hudouble, hlz⟩ hup
      · exact Inv.of_wait_idle (hbase.congr rfl rfl rfl ⟨rfl, rfl⟩) hudouble.1 hup
    · exact Inv.of_enter (s := .jiabei) (hbase.congr rfl rfl rfl ⟨rfl, rfl⟩)
        ⟨hudouble, hgame, hmld⟩ hs htime hup

end Double

section Blind

variable {t u : Table} {p : Nat}

theorem Inv.startCp (h : t.Base) (hd : t.play.dizhu ≠ 0)
    (hu : t.updating = none) : t.startCp.Inv := by
  unfold Table.startCp
  refine Inv.of_wait_idle (h.congr (by simp) (by simp) (by simp) (by simp)) ?_
    (by simpa using hu)
  simpa [MayEnter] using hd

theorem bids_addMldAct (hc : u.cfg = t.cfg) (hp : u.play = t.play)
    (hd : u.daoLaData = t.daoLaData) (hctrl : u.toCtrl = t.toCtrl)
    (type p : Nat) (msg : Act → Msg) :
    ∃ r, Bids t (u.addMldAct type p msg) ⟨type, p, r, [], 0, none, []⟩ :=
  ⟨u.lastRate p, by constructor <;> simp [hc, hp, hd, hctrl]⟩

theorem Inv.mldLandlord (h : t.Inv) (hs : t.status = .mldMen)
    (hp : p ∈ t.cfg.seatList) {a : Act} (hu : Bids t u a) (ha : a.IsBid)
    (hap : a.p = p) (men : Option Nat) :
    (u.setDizhu p men).Base ∧ (u.setDizhu p men).MayEnter .mldJb := by
  have hst := h.status
  rw [hs] at hst
  obtain ⟨hbidding, hmld, hdao⟩ := hst
  have hubid := hu.bidding hbidding ha
  have hbase := base_of_bidding hubid (hu.seats h.base (hap ▸ hp))
  have hp' : p ∈ u.cfg.seatList := by rw [hu.cfg]; exact hp
  have hudao : ∀ s, (u.setDizhu p men).daoLaData s = none := by
    rw [setDizhu_daoLaData, hu.daoLaData]
    exact hdao
  refine ⟨hbase.setDizhu hp' men, Doubling.setDizhu hubid.2 hp' men, ?_,
    hudao _, .inl hudao⟩
  rw [setDizhu_cfg, hu.cfg]
  exact hmld

theorem Inv.mldPass (h : t.Inv) (hs : t.status = .mldMen)
    (hp : p ∈ t.cfg.seatList) {a : Act} (hu : Bids t u a) (ha : a.IsBid)
    (hap : a.p = p) : (u.wait .mldMen).Inv := by
  have hst := h.status
  rw [hs] at hst
  obtain ⟨hbidding, hmld, hdao⟩ := hst
  obtain ⟨-, hup⟩ := h.quiet (by simp [hs]) (by simp [hs]) (by simp [hs])
  have hubid := hu.bidding hbidding ha
  refine Inv.of_wait_idle (base_of_bidding hubid (hu.seats h.base (hap ▸ hp))) ?_ ?_
  · refine ⟨hubid, ?_, ?_⟩
    · rw [hu.cfg]
      exact hmld
    · rw [hu.daoLaData]
      exact hdao
  · rw [hu.toCtrl, hup]

theorem Inv.men (h : t.Inv) (hp : p ∈ t.cfg.seatList) (opt : Nat) :
    (t.men p opt).table.Inv := by
  unfold Table.men
  split
  · exact h
  · next hs =>
    replace hs : t.status = .mldMen := by
      simp only [not_or, not_not] at hs
      exact hs.1
    obtain ⟨-, hup⟩ := h.quiet (by simp [hs]) (by simp [hs]) (by simp [hs])
    split
    · exact h
    · split
      · dsimp only
        generalize hv : addMldAct _ OtherType.mldMen p .mldMen = v
        obtain ⟨r, hbids⟩ : ∃ r, Bids t v ⟨OtherType.mldMen, p, r, [], 0, none, []⟩ :=
          hv ▸ bids_addMldAct (by rfl) (by rfl) (by rfl) (by rfl) _ _ _
        obtain ⟨hbase, hmay⟩ := h.mldLandlord hs hp hbids
          (by simp [Act.IsBid, OtherType.mldMen]) rfl (some 1)
        have hvup : (v.setDizhu p (some 1)).updating = none := by
          rw [setDizhu_toCtrl, hbids.toCtrl, hup]
        split
        · exact (Inv.startCp hbase hmay.1.1 hvup).congr rfl rfl ⟨rfl, rfl⟩ rfl rfl
        · exact Inv.of_wait_idle hbase hmay hvup
      · split
        · exact h
        · refine h.mldPass hs hp (a := ⟨OtherType.mldKp, p, 0, [], 0, none, []⟩) ?_
            (by simp [Act.IsBid, OtherType.mldKp]) rfl
          constructor <;> simp

theorem Inv.zhuaPai (h : t.Inv) (hp : p ∈ t.cfg.seatList) (opt : Nat) :
    (t.zhuaPai p opt).table.Inv := by
  unfold Table.zhuaPai
  split
  · exact h
  · next hs =>
    replace hs : t.status = .mldMen := by
      simp only [not_or, not_not] at hs
      exact hs.1
    obtain ⟨-, hup⟩ := h.quiet (by simp [hs]) (by simp [hs]) (by simp [hs])
    split
    · dsimp only
      generalize hv : addMldAct _ OtherType.mldZhua p .mldZp = v
      obtain ⟨r, hbids⟩ : ∃ r, Bids t v ⟨OtherType.mldZhua, p, r, [], 0, none, []⟩ :=
        hv ▸ bids_addMldAct (by rfl) (by rfl) (by rfl) (by rfl) _ _ _
      obtain ⟨hbase, hmay⟩ := h.mldLandlord hs hp hbids
        (by simp [Act.IsBid, OtherType.mldZhua]) rfl (some 0)
      refine Inv.of_wait_idle (hbase.congr (by simp) (by simp) (by simp) (by simp))
        ?_ ?_
      · exact (mayEnter_congr (by simp) (by simp) (by simp) _).mpr hmay
      · simp [hbids.toCtrl, hup]
    · refine h.mldPass hs hp
        (a := ⟨OtherType.mldBz, p, t.lastRate p, [], 0, none, []⟩) ?_
        (by simp [Act.IsBid, OtherType.mldBz]) rfl
      constructor <;> simp

theorem nongmin_three (hbase : t.Base) (hd : t.play.dizhu ≠ 0)
    (hgame : t.cfg.gameType ≠ .er) : t.others = [t.nm1, t.nm2] := by
  obtain ⟨hmem, hnm, -⟩ := hbase.dizhu hd
  obtain ⟨a, b, hab⟩ := others_three hgame hmem
  rw [nm1, nm2, hnm, hab]
  rfl

theorem RateSum.of_sumNongmin {r : Nat → Nat} (hthree : t.others = [t.nm1, t.nm2])
    (hc : u.cfg = t.cfg) (hdz : u.play.dizhu = t.play.dizhu)
    (hr : u.pRate = t.sumNongmin r) : u.RateSum := by
  refine RateSum.of_update (r := r) ?_
  rw [others_congr hc hdz, hthree, hr, hdz]
  simp [sumNongmin]

theorem isMld_gameType (cfg : Config) (h : cfg.isMld) : cfg.gameType ≠ .er := by
  have := cfg.mld_nor (by simpa [Config.isMld] using h)
  simp [this]

theorem farmers_answered (hmem : t.play.dizhu ∈ t.cfg.seatList)
    (hgame : t.cfg.gameType ≠ .er) (hnone : t.daoLaData t.play.dizhu = none)
    (h : 1 < t.daoSeats.length) : ∀ s ∈ t.others, (t.daoLaData s).isSome := by
  obtain ⟨-, -, hl⟩ := t.cfg.seat_cases.resolve_right fun h => hgame h.1
  have hfilter : t.others.filter (fun s => (t.daoLaData s).isSome) =
      [1, 2, 3].filter fun s => (t.daoLaData s).isSome := by
    rw [others, hl, List.filter_filter]
    refine List.filter_congr fun s _ => ?_
    by_cases hs : s = t.play.dizhu
    · simp [hs, hnone]
    · simp [hs]
  have hsub : t.daoSeats.Sublist
      (t.others.filter fun s => (t.daoLaData s).isSome) := by
    rw [hfilter, daoSeats, seats, List.filter_comm]
    exact List.filter_sublist
  obtain ⟨a, b, hab⟩ := others_three hgame hmem
  have hall : t.others.filter (fun s => (t.daoLaData s).isSome) = t.others := by
    refine List.filter_sublist.eq_of_length_le ?_
    have := hsub.length_le
    rw [hab] at this ⊢
    exact h.trans_le this
  exact List.filter_eq_self.mp hall

theorem Inv.dao (h : t.Inv) (hs : t.status = .mldJb) (hp : p ∈ t.cfg.seatList)
    (hpd : p ≠ t.play.dizhu) (hcur : t.play.curP ≠ t.play.dizhu) (opt : Nat) :
    (t.dao p opt).table.Inv := by
  have hst := h.status
  rw [hs] at hst
  obtain ⟨hdouble, hmld, hnone, hcur4, -⟩ := hst
  replace hcur4 : t.play.curP = 4 := hcur4.resolve_right hcur
  obtain ⟨htime, hup⟩ := h.quiet (by simp [hs]) (by simp [hs]) (by simp [hs])
  have hgame := isMld_gameType t.cfg hmld
  have hmem := (h.base.dizhu hdouble.1).1
  have hthree := nongmin_three h.base hdouble.1 hgame
  unfold Table.dao
  split
  · exact h
  · dsimp only
    generalize htype : (if 0 < opt then OtherType.mldDao else OtherType.mldBd) = type
    have hbid : 100 ≤ type := by
      rw [← htype]
      split <;> decide
    set w := (t.daoRate p opt).addMldAct type p .mldDao with hw
    set v : Table := { w with
      daoLaData := Function.update w.daoLaData p (some opt) } with hv
    have hact : v.play.actList = t.play.actList ++
        [⟨type, p, (t.daoRate p opt).lastRate p, [], 0, none, []⟩] := by
      simp [hv, hw]
    have hvdouble : v.Doubling := hdouble.of_append (by simp [hv, hw]) hact hbid
    have hbase : v.Base := by
      refine h.base.of_append hdouble (by simp [hv, hw]) (by simp [hv, hw]) hact hbid
        hp (by simp [hv, hw]) fun hsum => ?_
      by_cases hopt : 0 < opt
      · exact RateSum.of_sumNongmin
          (r := Function.update t.pRate p (t.pRate p * 2)) hthree
          (by simp [hv, hw]) (by simp [hv, hw]) (by simp [hv, hw, hopt])
      · exact hsum.congr (by simp [hv, hw]) (by simp [hv, hw])
          (by simp [hv, hw, hopt])
    have hvnone : v.daoLaData v.play.dizhu = none := by
      simp [hv, hw, Function.update_of_ne hpd.symm, hnone]
    have hvmld : v.cfg.isMld := by simpa [hv, hw] using hmld
    have hvup : v.updating = none := by simpa [hv, hw] using hup
    split
    · next hlen =>
      have hall := farmers_answered (by simpa [hv, hw] using hmem)
        (isMld_gameType _ hvmld) hvnone hlen
      split
      · exact Inv.of_wait_idle hbase ⟨hvdouble, hvmld, hvnone, .inr hall⟩ hvup
      · exact Inv.startCp hbase hvdouble.1 hvup
    · have hvcur : v.play.curP = t.play.curP := by simp [hv, hw]
      have hvdz : v.play.dizhu = t.play.dizhu := by simp [hv, hw]
      have hin : v.InStatus .mldJb := by
        refine ⟨hvdouble, hvmld, hvnone, .inl (hvcur.trans hcur4), fun hcurd => ?_⟩
        rw [hvcur, hvdz] at hcurd
        exact absurd hcurd hcur
      have hstay : v.Inv := Inv.of_enter hbase hin (by simpa [hv, hw] using hs)
        (by simpa [hv, hw] using htime) hvup
      exact hstay

theorem Inv.laEnd (h : t.Base) (hdouble : t.Doubling) (hp : p ∈ t.cfg.seatList)
    (hup : t.updating = none) (opt : Nat) : (t.laEnd p opt).table.Inv := by
  unfold Table.laEnd
  dsimp only
  generalize htype : (if 0 < opt then OtherType.mldLa else OtherType.mldBl) = type
  have hbid : 100 ≤ type := by
    rw [← htype]
    split <;> decide
  have hact : (t.addMldAct type p .mldLa).play.actList = t.play.actList ++
      [⟨type, p, t.lastRate p, [], 0, none, []⟩] := by simp
  refine Inv.startCp ?_ (by simpa using hdouble.1) (by simpa using hup)
  exact h.of_append hdouble (by simp) (by simp) hact hbid hp (by simp)
    fun hsum => hsum.congr (by simp) (by simp) (by simp)

theorem la_eq {opt : Nat} (hopt : 0 < opt) (h1 : (t.daoLaData t.nm1).isSome)
    (h2 : (t.daoLaData t.nm2).isSome) :
    ∃ r, t.la p opt =
      ((t.read .nongmin).setRate (t.sumNongmin r)).laEnd p opt := by
  obtain ⟨o1, h1⟩ := Option.isSome_iff_exists.mp h1
  obtain ⟨o2, h2⟩ := Option.isSome_iff_exists.mp h2
  unfold nm1 at h1
  unfold nm2 at h2
  simp only [la, hopt, if_true, laRate, nm1, nm2, read_toHand, read_toMld,
    setRate_toHand, setRate_toMld, setRate_setRate, h1, h2, Option.map_some]
  exact ⟨_, rfl⟩

theorem Inv.la (h : t.Inv) (hs : t.status = .mldJb) (hp : p ∈ t.cfg.seatList)
    (hcur : t.play.curP = t.play.dizhu) (opt : Nat) :
    (t.la p opt).table.Inv := by
  have hst := h.status
  rw [hs] at hst
  obtain ⟨hdouble, hmld, hnone, -, hall⟩ := hst
  replace hall := hall hcur
  obtain ⟨htime, hup⟩ := h.quiet (by simp [hs]) (by simp [hs]) (by simp [hs])
  have hthree := nongmin_three h.base hdouble.1 (isMld_gameType t.cfg hmld)
  rw [hthree] at hall
  have h1 := hall t.nm1 (by simp)
  have h2 := hall t.nm2 (by simp)
  by_cases hopt : 0 < opt
  · obtain ⟨r, hla⟩ := la_eq (p := p) hopt h1 h2
    rw [hla]
    refine Inv.laEnd (t := (t.read .nongmin).setRate (t.sumNongmin r)) ?_ hdouble hp
      hup opt
    refine h.base.of_rates rfl rfl rfl rfl fun _ _ => ?_
    exact RateSum.of_sumNongmin hthree rfl rfl rfl
  · rw [Table.la, if_neg hopt]
    exact Inv.laEnd h.base hdouble hp hup opt

theorem Inv.daoLa (h : t.Inv) (hp : p ∈ t.cfg.seatList) (opt : Nat) :
    (t.daoLa p opt).table.Inv := by
  unfold Table.daoLa
  split
  · exact h
  · next hs =>
    replace hs : t.status = .mldJb := by simpa using hs
    have hread : (t.read .daoLaData).Inv := h.congr rfl rfl ⟨rfl, rfl⟩ rfl rfl
    have hcur := hread.status
    rw [show (t.read .daoLaData).status = .mldJb from hs] at hcur
    obtain ⟨-, -, -, hcur4, -⟩ := hcur
    dsimp only
    split
    · exact hread
    · split
      · exact hread
      · next hturn =>
        split
        · next hla => exact hread.la hs hp hla opt
        · next hdao =>
          refine hread.dao hs hp ?_ hdao opt
          rintro rfl
          exact hturn (.inl ⟨hcur4.resolve_right hdao, rfl⟩)

end Blind

section Play

variable {t u : Table} {p : Nat} {a : Act}

theorem must_of_bids {g : GameType} {l : List Act} (h : ∀ a ∈ l, a.IsBid) :
    isMustChupai g l := by
  have hrev : ∀ a ∈ l.reverse, a.IsBid := fun a ha => h a (List.mem_reverse.mp ha)
  unfold isMustChupai
  split
  · rfl
  · next heq => simpa using .inl (hrev _ (by simp [heq]))
  · next heq => simpa [Act.IsBid] using hrev _ (by simp [heq])
  · next heq => simpa using .inl (hrev _ (by simp [heq]))

theorem history_append {g : GameType} {l : List Act} (h : History l)
    (hwf : a.play.Wf) (hpass : a.type = 0 → isMustChupai g l = false) :
    History (l ++ [a]) := by
  obtain ⟨bids, plays, rfl, hbids, hplays, hfirst⟩ := h
  refine ⟨bids, plays ++ [a], by simp, hbids, ?_, ?_⟩
  · simpa [or_imp, forall_and] using ⟨hplays, hwf⟩
  · cases plays with
    | nil =>
        intro b hb htype
        obtain rfl : a = b := by simpa using hb
        have := hpass htype
        rw [List.append_nil, must_of_bids hbids] at this
        exact absurd this (by simp)
    | cons b plays => simpa using hfirst

structure Plays (t u : Table) (a : Act) : Prop where
  cfg : u.cfg = t.cfg
  dizhu : u.play.dizhu = t.play.dizhu
  actList : u.play.actList = t.play.actList ++ [a]
  hand : u.toHand = t.toHand
  toCtrl : u.toCtrl = t.toCtrl
  toMld : u.toMld = t.toMld
  toLobby : u.toLobby = t.toLobby
  toRaces : u.toRaces = t.toRaces
  outbox : u.outbox = t.outbox

theorem check_pass {g : GameType} {l : List Act} {type : Nat} {pai : List Nat}
    (h : checkChupaiSafe g l type pai = some true) (htype : type = 0) :
    isMustChupai g l = false := by
  simpa [checkChupaiSafe, htype] using h

theorem deduct_frame (t : Table) (p : Nat) (a : ChupaiArgs) :
    (t.deduct p a).1.cfg = t.cfg ∧
      (t.deduct p a).1.play.dizhu = t.play.dizhu ∧
      (t.deduct p a).1.play.actList = t.play.actList ∧
      (t.deduct p a).1.toHand = t.toHand ∧ (t.deduct p a).1.toCtrl = t.toCtrl ∧
      (t.deduct p a).1.toMld = t.toMld ∧ (t.deduct p a).1.toLobby = t.toLobby ∧
      (t.deduct p a).1.toRaces = t.toRaces ∧ (t.deduct p a).1.outbox = t.outbox := by
  simp [deduct]

theorem libChupai_spec (t : Table) (p : Nat) (a : ChupaiArgs) :
    ((t.libChupai p a).table = t ∧
        ((t.libChupai p a).result = none ∨ (t.libChupai p a).result = some 1003)) ∨
      (Plays t (t.libChupai p a).table (a.act p) ∧
        (a.type = 0 → isMustChupai t.cfg.gameType t.play.actList = false)) := by
  unfold libChupai
  split
  · exact .inl ⟨rfl, .inl rfl⟩
  · exact .inl ⟨rfl, .inr rfl⟩
  · next hcheck =>
    refine .inr ⟨?_, check_pass hcheck⟩
    dsimp only
    split
    · constructor <;> simp
    · have hframe := (t.addAct (a.act p)).deduct_frame p a
      generalize (t.addAct (a.act p)).deduct p a = q at hframe
      obtain ⟨u, ok⟩ := q
      obtain ⟨hc, hd, ha, hh, hctrl, hm, hl, hr, ho⟩ := hframe
      dsimp only at hc hd ha hh hctrl hm hl hr ho
      cases ok with
      | false => exact ⟨hc, hd, ha, hh, hctrl, hm, hl, hr, ho⟩
      | true =>
          dsimp only
          split
          · constructor <;> simp [hc, hd, ha, hh, hctrl, hm, hl, hr, ho]
          · constructor <;> simp [hc, hd, ha, hh, hctrl, hm, hl, hr, ho]

theorem Plays.base (hu : Plays t u a) (h : t.Base) (hp : a.p ∈ t.cfg.seatList)
    (hwf : a.play.Wf)
    (hpass : a.type = 0 → isMustChupai t.cfg.gameType t.play.actList = false) :
    u.Base where
  seats := by
    rw [hu.actList, hu.cfg]
    simpa [or_imp, forall_and] using ⟨h.seats, hp⟩
  history := by
    rw [hu.actList]
    exact history_append h.history hwf hpass
  dizhu hdz := by
    rw [hu.dizhu] at hdz
    obtain ⟨hmem, hnm, hsum⟩ := h.dizhu hdz
    rw [hu.dizhu, hu.cfg, hu.hand, others_congr hu.cfg hu.dizhu]
    exact ⟨hmem, hnm, hsum.congr hu.cfg hu.dizhu (by rw [hu.hand])⟩

theorem Base.countPlay (h : t.Base) (seat type : Nat) :
    (t.countPlay seat type).Base := by
  refine h.of_rates (by simp) (by simp) (by simp) (by simp) fun hmem hsum => ?_
  exact hsum.of_mul hmem (by simp) (by simp)
    (k := if type = 13 ∨ type = 14 ∨ type = 15 then 2 else 1)
    fun s hs => by simp [hs]

theorem Inv.chupai (h : t.Inv) (hp : p ∈ t.cfg.seatList) (a : ChupaiArgs)
    (hwf : (PaiType.mk a.type a.keyPai).Wf) : (t.chupai p a).table.Inv := by
  unfold Table.chupai
  split
  · exact h
  · next hs =>
    replace hs : t.status = .cp := by
      simp only [not_or, not_not] at hs
      exact hs.1
    have hdz := h.status
    rw [hs] at hdz
    obtain ⟨htime, hup⟩ := h.quiet (by simp [hs]) (by simp [hs]) (by simp [hs])
    have hspec := t.libChupai_spec p a
    generalize t.libChupai p a = q at hspec
    obtain ⟨res, u⟩ := q
    have hu : u.Inv ∧ u.status = .cp := by
      rcases hspec with ⟨hu, -⟩ | ⟨hu, hpass⟩
      · dsimp only at hu
        rw [hu]
        exact ⟨h, hs⟩
      · have hst : u.status = .cp := by rw [hu.toCtrl, hs]
        refine ⟨Inv.of_enter (s := .cp) (hu.base h.base hp hwf hpass) ?_ hst
          (by rw [hu.toCtrl, htime]) (by rw [hu.toCtrl, hup]), hst⟩
        exact fun h0 => hdz (hu.dizhu.symm.trans h0)
    obtain ⟨hinv, hst⟩ := hu
    have hudz := hinv.status
    rw [hst] at hudz
    obtain ⟨hutime, huup⟩ := hinv.quiet (by simp [hst]) (by simp [hst]) (by simp [hst])
    cases res with
    | none => exact hinv
    | some status =>
        have hbase := hinv.base.countPlay p a.type
        dsimp only
        split
        · split
          · refine Inv.settles ?_ (settles_settlement _ _)
            exact Inv.of_enter (s := .cp) (hbase.congr rfl rfl rfl ⟨rfl, rfl⟩) hudz
              hst hutime huup
          · exact Inv.of_wait_idle (hbase.congr rfl rfl rfl ⟨rfl, rfl⟩) hudz huup
        · exact hinv

end Play

section Timer

variable {t : Table}

theorem Inv.gameover (h : t.Base) (hu : t.updating = none) : t.gameover.Inv :=
  Inv.of_enter (s := .gameover) (h.congr rfl rfl rfl ⟨rfl, rfl⟩) trivial rfl rfl hu

theorem Inv.gamecancel (h : t.Base) (hu : t.updating = none) :
    t.gamecancel.Inv :=
  Inv.of_enter (s := .gamecancel) (h.congr rfl rfl rfl ⟨rfl, rfl⟩) trivial rfl rfl hu

theorem Inv.mldJbPermit (h : t.Base) (hs : t.MayEnter .mldJb)
    (hu : t.updating = none) : t.mldJbPermit.Inv := by
  obtain ⟨hdouble, hmld, hnone, hdao⟩ := hs
  refine Inv.of_enter (s := .mldJb) (h.congr rfl rfl rfl ⟨rfl, rfl⟩) ?_ rfl rfl hu
  refine ⟨hdouble, hmld, hnone, ?_, ?_⟩
  · show (if _ then 4 else t.play.dizhu) = 4 ∨ _ = t.play.dizhu
    split
    · exact .inl rfl
    · exact .inr (if_neg ‹_›)
  · intro hcur
    rcases hdao with hdao | hdao
    · have hall : ([1, 2, 3].all fun s => (t.daoLaData s).isNone) := by
        simp [hdao]
      have hcur' : (if [1, 2, 3].all fun s => (t.daoLaData s).isNone then 4
          else t.play.dizhu) = t.play.dizhu := hcur
      rw [if_pos hall] at hcur'
      have hmem := (h.dizhu hdouble.1).1
      rcases t.cfg.seat_cases with ⟨-, -, hl⟩ | ⟨-, -, hl⟩ <;>
        rw [hl, ← hcur'] at hmem <;> simp at hmem
    · exact hdao

theorem Inv.changeStatus (h : t.Base) {s : Status} (hs : t.MayEnter s)
    (hu : t.updating = none) (rand : Nat) : (t.changeStatus rand s).Inv := by
  cases s with
  | waitP => exact Inv.of_enter (s := .waitP) (h.congr rfl rfl rfl ⟨rfl, rfl⟩) hs rfl rfl hu
  | ready => exact Inv.of_enter (s := .ready) (h.congr rfl rfl rfl ⟨rfl, rfl⟩) hs rfl rfl hu
  | gameBegin => exact Inv.gameBegin hs
  | wait => exact Inv.of_enter (s := .wait) (h.congr rfl rfl rfl ⟨rfl, rfl⟩) hs rfl rfl hu
  | fp =>
      refine ⟨h.congr rfl rfl rfl ⟨rfl, rfl⟩, trivial, ?_, ?_, ?_, ?_⟩
      · exact fun ht => absurd ht Bool.false_ne_true
      · exact fun ht => absurd ht Bool.false_ne_true
      · exact fun _ => ⟨hs, .inl rfl⟩
      · exact fun hp => absurd hp (by simp [Table.changeStatus])
  | jdz => exact Inv.of_enter (s := .jdz) (h.congr rfl rfl rfl ⟨rfl, rfl⟩) hs rfl rfl hu
  | mldMen => exact Inv.of_enter (s := .mldMen) (h.congr rfl rfl rfl ⟨rfl, rfl⟩) hs rfl rfl hu
  | mldJb => exact Inv.mldJbPermit h hs hu
  | jiabei => exact Inv.of_enter (s := .jiabei) (h.congr rfl rfl rfl ⟨rfl, rfl⟩) hs rfl rfl hu
  | erQiangdizhu =>
      exact Inv.of_enter (s := .erQiangdizhu) (h.congr rfl rfl rfl ⟨rfl, rfl⟩) hs rfl rfl hu
  | createLz => exact Inv.of_wait_idle (h.congr rfl rfl rfl ⟨rfl, rfl⟩) hs.1.1 hu
  | cp => exact Inv.of_enter (s := .cp) (h.congr rfl rfl rfl ⟨rfl, rfl⟩) hs rfl rfl hu
  | settlement =>
      refine ⟨h.congr rfl rfl rfl ⟨rfl, rfl⟩, trivial, ?_, ?_, ?_, ?_⟩
      · exact fun ht => absurd ht Bool.false_ne_true
      · exact fun ht => absurd ht Bool.false_ne_true
      · exact fun hp => absurd hp (by simp [Table.changeStatus])
      · exact fun _ => .inl rfl
  | gameover => exact Inv.gameover h hu
  | gamecancel => exact Inv.gamecancel h hu

theorem Inv.update (h : t.Inv) (rand : Nat) : (t.update rand).Inv := by
  unfold Table.update
  split
  · next htime =>
    dsimp only
    split
    · refine ⟨h.base.congr rfl rfl rfl ⟨rfl, rfl⟩, ?_, ?_, ?_, ?_, ?_⟩
      · exact (inStatus_congr rfl rfl rfl _).mpr h.status
      · exact fun ht => absurd ht Bool.false_ne_true
      · exact fun ht => absurd ht Bool.false_ne_true
      · exact fun hu => absurd (htime.2.symm.trans hu) (by simp)
      · exact h.paying
    · next s hs =>
      exact Inv.changeStatus (h.base.congr rfl rfl rfl ⟨rfl, rfl⟩)
        ((mayEnter_congr rfl rfl rfl s).mpr (h.next htime.1 s hs)) htime.2 rand
  · exact h

theorem Inv.cancelGame (h : t.Inv) : t.cancelGame.table.Inv := by
  unfold Table.cancelGame
  split
  · exact h
  · next hs =>
    replace hs : t.status = .waitP := by simpa using hs
    exact Inv.gamecancel h.base
      (h.quiet (by simp [hs]) (by simp [hs]) (by simp [hs])).2

theorem Inv.breakGame (h : t.Inv) : t.breakGame.table.Inv := by
  unfold Table.breakGame
  split
  · exact h
  · have hbreak : Inv { t with isBreakGame := true } :=
      h.congr rfl rfl ⟨rfl, rfl⟩ rfl rfl
    dsimp only
    split
    · next hs =>
      exact Inv.gameover hbreak.base
        (h.quiet (by simp [hs]) (by simp [hs]) (by simp [hs])).2
    · split
      · exact hbreak.settles (settles_settlement _ _)
      · exact hbreak

theorem Inv.settlementFinish (h : t.Inv) (hu : t.updating = some .score)
    (F : NumFormat) (answer : Nat → Int → Int) :
    (settlementFinish F { t with updating := none } answer).Inv := by
  unfold Table.settlementFinish
  dsimp only
  unfold Table.nextGame
  split
  · exact newGame_inv _ false fun _ => rfl
  · refine Inv.of_later (h.base.congr rfl rfl rfl ⟨rfl, rfl⟩) trivial ?_ rfl
    rcases h.paying hu with hs | hs
    · exact .inr (.inr hs)
    · exact .inl hs

end Timer

/-! ## Steps and runs -/

theorem Inv.step {t : Table} (h : t.Inv) (F : NumFormat) {e : Event}
    (he : t.Legal e) : (t.step F e).Inv := by
  unfold Table.step
  split
  · exact h
  · cases e with
    | join id seat => exact h.join id seat
    | playerExitGame seat => exact h.playerExitGame seat
    | ready seat => exact h.readyCmd seat he.2
    | jiaoDizhu seat rate => exact h.jiaoDizhu he rate
    | jiabei seat rate => exact h.jiabei he rate
    | men seat opt => exact h.men he opt
    | zhuaPai seat opt => exact h.zhuaPai he opt
    | daoLa seat opt => exact h.daoLa he opt
    | erQiangDizhu seat rate => exact h.erQiangDizhu he rate
    | chupai seat args => exact h.chupai he.1 args he.2
    | auto seat type => exact h.congr rfl rfl ⟨rfl, rfl⟩ rfl rfl
    | cancelGame => exact h.cancelGame
    | breakGame => exact h.breakGame
    | overTimeCancelGame =>
        simp only [handle, Table.overTimeCancelGame]
        split
        · exact h.cancelGame
        · exact h.breakGame
    | update rand => exact h.update rand
    | fapaiAnswer ρ rand =>
        simp only [handle]
        split
        · next hu => exact h.fapai hu ρ rand
        · exact h
    | capAnswer call answer =>
        simp only [handle]
        split
        · refine Inv.settles ?_ (settles_resumeSettlement _ _ _)
          refine ⟨h.base.congr rfl rfl rfl ⟨rfl, rfl⟩, ?_, ?_, h.timer, ?_, h.paying⟩
          · exact (inStatus_congr rfl rfl rfl _).mpr h.status
          · exact fun ht s hs => (mayEnter_congr rfl rfl rfl s).mpr (h.next ht s hs)
          · exact h.dealing
        · exact h
    | scoreAnswer answer =>
        simp only [handle]
        split
        · next hu => exact h.settlementFinish hu F answer
        · exact h

def Reachable (F : NumFormat) (cfg : Config) (t : Table) : Prop :=
  Reach (Table.step F) Legal (newTable cfg) t

theorem Reachable.inv {F : NumFormat} {cfg : Config} {t : Table}
    (h : Reachable F cfg t) : t.Inv :=
  Reach.invariant (newTable_inv cfg) (fun _ _ hi he => hi.step F he) h

def after (cfg : Config) (events : List Event) : Table :=
  run (Table.step .exact) (newTable cfg) events

theorem reachable_after {cfg : Config} {events : List Event}
    (h : Allowed (Table.step .exact) Legal (newTable cfg) events) :
    Reachable .exact cfg (after cfg events) :=
  reach_run h

/-- Once a table with three seats has a landlord, the landlord's rate is the sum
of the rates of the two farmers. -/
theorem Reachable.dizhu_rate {F : NumFormat} {cfg : Config} {t : Table}
    (h : Reachable F cfg t) (hseats : t.cfg.seatCount = 3)
    (hd : t.play.dizhu ≠ 0) :
    ∃ f g, t.others = [f, g] ∧ t.pRate t.play.dizhu = t.pRate f + t.pRate g := by
  have hgame : t.cfg.gameType ≠ .er := by
    rintro her
    simp [Config.seatCount, GameType.seatCount, her] at hseats
  obtain ⟨hmem, -, hsum⟩ := h.inv.base.dizhu hd
  obtain ⟨f, g, hfg⟩ := others_three hgame hmem
  refine ⟨f, g, hfg, ?_⟩
  have := hsum hgame
  rw [hfg] at this
  simpa using this

def bidThree : List Event :=
  [.join 1 none, .join 2 none, .join 3 none, .ready 1, .ready 2, .ready 3,
    .update 0, .fapaiAnswer (fun _ => 0) 0, .update 0, .jiaoDizhu 1 3]

theorem dizhu_rate_bidThree :
    ∃ f g, (after {} bidThree).others = [f, g] ∧
      (after {} bidThree).pRate (after {} bidThree).play.dizhu =
        (after {} bidThree).pRate f + (after {} bidThree).pRate g :=
  Reachable.dizhu_rate (reachable_after (by decide +kernel)) (by decide +kernel)
    (by decide +kernel)

end Table

end JyQipai.Ddz
