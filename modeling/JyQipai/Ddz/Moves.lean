import JyQipai.Ddz.Conservation
import JyQipai.Ddz.Deliver
import JyQipai.Ddz.Ready

/-!
# The moves of a hand

Every event of a table is a chain of moves.  Most moves leave the cards alone; the others deal,
show or hand out cards, draw the wildcard, lay cards, or start another hand.  A move says which
messages it sends, so whatever the agents keep has to be followed through the moves only.
-/

namespace JyQipai.Ddz

open JyQipai.Lib

def Msg.Silent : Msg → Prop
  | .playerExit _ | .jdzPermit _ | .erQdzPermit _ | .jiabeiPermit _ | .cpPermit .. => True
  | .mldJdzPermit .. | .mldKan _ | .mldJiabeiPermit _ | .auto .. => True
  | .settlement .. | .gameover | .gamecancel => True
  | _ => False

def Msg.Neutral : Msg → Prop
  | .jdz act | .erQdz act | .myJiabei act | .mldMen act => act.IsBid
  | .mldZp act | .mldDao act | .mldLa act => act.IsBid
  | .jiabei acts _ => ∀ act ∈ acts, act.IsBid
  | msg => msg.Silent

namespace Table

def AtCp (t : Table) : Prop := t.status = .cp ∨ (t.time = true ∧ t.nextStatus = some .cp)

def Onward (t : Table) : Prop := ∀ s ∈ t.nextStatus, s ∉ [Status.waitP, .ready, .gameBegin]

def Dealing (t : Table) : Prop :=
  t.updating = some .fapai ∨ (t.time = true ∧ t.nextStatus = some .fp)

/-- The control state goes on: into the play only from where it was entered, and never back to the
time between two hands or to the deal. -/
structure GoesOn (t u : Table) : Prop where
  atCp : u.AtCp → t.AtCp ∨ t.cfg.gameType ≠ .lz
  onward : t.Onward → u.Onward
  idle : u.Idle → t.Idle
  dealing : u.Dealing → t.Dealing

structure Rests (t u : Table) : Prop where
  keeps : Keeps t u
  dizhu : u.play.dizhu = t.play.dizhu
  pKanPai : u.pKanPai = t.pKanPai
  seats : u.pSeatNumber = t.pSeatNumber
  ready : u.ready = t.ready ∧ u.pReady = t.pReady
  goesOn : GoesOn t u

def ChupaiArgs.CountsWild (a : ChupaiArgs) : Prop :=
  a.type ≠ 0 → ∀ cp, a.cpList = some cp → a.laziNum = cp.lzIds.length

structure Laid (t u : Table) (p : Nat) (a : ChupaiArgs) : Prop where
  acts : u.play.actList = t.play.actList ++ [a.act p]
  dizhu : u.play.dizhu = t.play.dizhu
  pKanPai : u.pKanPai = t.pKanPai
  lobby : u.toLobby = t.toLobby
  ctrl : u.toCtrl = t.toCtrl
  pass : a.type = 0 → Keeps t u
  lays : a.type ≠ 0 → ∃ cp, a.cpList = some cp ∧ cp.FromHand (t.play.pai p) t.laizi ∧
    a.mergeCpList.length = cp.norIds.length + cp.lzIds.length ∧ a.laziNum = cp.lzIds.length ∧
    Lays t u p (cp.cards (t.play.pai p) t.laizi) ∧ u.laizi = t.laizi
  sent : ∃ rate, u.outbox = t.outbox ++ t.seats.map fun s => (s, .cp (a.act p) rate)

inductive Move (t : Table) : Table → Prop
  | rest {u : Table} : Rests t u → u.play.actList = t.play.actList → Sends Msg.Silent t u →
      Move t u
  | bid {u : Table} (acts : List Act) : Rests t u → t.Conserved →
      u.play.actList = t.play.actList ++ acts → (∀ b ∈ u.play.actList, b.IsBid) →
      Sends Msg.Neutral t u → Move t u
  | join (id : Nat) (seat : Option Nat) : t.Idle → t.Fresh → Move t (t.join id seat).table
  | exit (seat : Nat) : Move t (t.playerExitGame seat).table
  | ready {seat : Nat} : t.Idle → t.Fresh → seat ∈ t.cfg.seatList →
      Move t (t.readyCmd seat).table
  | deal (ρ : Nat → Nat) (rand : Nat) : t.Fresh → t.updating = some .fapai → ¬ t.Idle →
      t.status ≠ .cp → Move t ({ t with updating := none }.fapai ρ rand)
  | landlord {d : Nat} (men : Option Nat) : t.Conserved → t.dzTaken = false → ¬ t.AtCp →
      d ∈ t.cfg.seatList → Move t (t.setDizhu d men)
  | look (seat : Nat) : t.Conserved → t.dzTaken = false → Move t (t.kanMyPai seat)
  | bottom (shown : Nat → Prop) [DecidablePred shown] : t.Conserved → t.dzTaken = false →
      t.cfg.isMld → t.play.dizhu ∈ t.cfg.seatList → (∀ s ∈ t.cfg.seatList, t.pKanPai s) →
      shown t.play.dizhu →
      Move t ((t.fapaiDizhu true).sendAll fun s =>
        .mldDizhuPai (if shown s then some t.play.dzPai else none))
  | wild (rand : Nat) : t.Conserved → t.dzTaken = true → t.cfg.gameType = .lz → ¬ t.Idle →
      Move t (t.createLz rand)
  | lay {u : Table} {p : Nat} {a : ChupaiArgs} : t.Conserved → t.dzTaken = true → t.AtCp →
      p ∈ t.cfg.seatList → (PaiType.mk a.type a.keyPai).Wf →
      (a.type = 0 → isMustChupai t.cfg.gameType t.play.actList = false) → Laid t u p a → Move t u
  | again : ¬ t.Idle → Move t ((t.sendAll fun _ => .startAgain).newGame true)
  | next (isChuntian : Nat) : ¬ t.Idle → t.updating = none →
      Move t ((t.sendAll fun _ => .settlement isChuntian false).newGame false)

abbrev MoveChain : Table → Table → Prop := Relation.ReflTransGen Move

section Rest

variable {t u v : Table} {s : Status}

theorem GoesOn.of_same (h : u.toCtrl = t.toCtrl) : GoesOn t u where
  atCp hu := .inl (by simpa only [AtCp, h] using hu)
  onward ht := by simpa only [Onward, h] using ht
  idle hu := by simpa only [Idle, h] using hu
  dealing hu := by simpa only [Dealing, h] using hu

theorem GoesOn.of_wait (hs : s ∉ [Status.waitP, .ready, .gameBegin, .fp])
    (hcp : s = .cp → t.AtCp ∨ t.cfg.gameType ≠ .lz) (hwait : u.status = .wait)
    (hnext : u.nextStatus = some s) (hup : u.updating = t.updating) : GoesOn t u where
  atCp hu := by
    rcases hu with hu | ⟨-, hu⟩
    · simp [hwait] at hu
    · rw [hnext] at hu
      exact hcp (Option.some.inj hu)
  onward _ := by
    intro s' hs'
    rw [hnext] at hs'
    obtain rfl := Option.some.inj hs'
    simp only [List.mem_cons, List.not_mem_nil, or_false, not_or] at hs ⊢
    exact ⟨hs.1, hs.2.1, hs.2.2.1⟩
  idle hu := by simp [Idle, hwait] at hu
  dealing hu := by
    rcases hu with hu | ⟨-, hu⟩
    · exact .inl (hup.symm.trans hu)
    · rw [hnext] at hu
      obtain rfl := Option.some.inj hu
      simp at hs

theorem GoesOn.of_enter (hs : s ≠ .waitP ∧ s ≠ .ready) (hcp : s = .cp → t.AtCp)
    (hstatus : u.status = s) (htime : u.time = false) (hnext : u.nextStatus = t.nextStatus)
    (hup : u.updating = some .fapai → t.Dealing) : GoesOn t u where
  atCp hu := by
    rcases hu with hu | ⟨hu, -⟩
    · exact .inl (hcp (hstatus.symm.trans hu))
    · simp [htime] at hu
  onward ht := by rwa [Onward, hnext]
  idle hu := by simp [Idle, hstatus, hs] at hu
  dealing hu := by
    rcases hu with hu | ⟨hu, -⟩
    · exact hup hu
    · simp [htime] at hu

theorem Keeps.refl (t : Table) : Keeps t t := ⟨rfl, rfl, rfl, rfl, rfl, rfl, rfl⟩

theorem Rests.of_same (hk : Keeps t u) (hd : u.play.dizhu = t.play.dizhu)
    (hp : u.pKanPai = t.pKanPai) (hl : u.toLobby = t.toLobby) (hc : u.toCtrl = t.toCtrl) :
    Rests t u :=
  ⟨hk, hd, hp, by rw [hl], by rw [hl]; exact ⟨rfl, rfl⟩, .of_same hc⟩

theorem Rests.wait (h : Rests t u) (hc : u.toCtrl = t.toCtrl)
    (hs : s ∉ [Status.waitP, .ready, .gameBegin, .fp])
    (hcp : s = .cp → t.AtCp ∨ t.cfg.gameType ≠ .lz) : Rests t (u.wait s) where
  keeps := h.keeps.trans ⟨rfl, rfl, rfl, rfl, rfl, rfl, rfl⟩
  dizhu := h.dizhu
  pKanPai := h.pKanPai
  seats := h.seats
  ready := h.ready
  goesOn := .of_wait hs hcp rfl rfl (show u.updating = t.updating by rw [hc])

theorem Move.quiet (h : Rests t u) (ha : u.play.actList = t.play.actList)
    (ho : u.outbox = t.outbox) : Move t u :=
  .rest h ha (.of_eq h.keeps.cfg ho)

theorem Move.wait (hs : s ∉ [Status.waitP, .ready, .gameBegin, .fp])
    (hcp : s = .cp → t.AtCp ∨ t.cfg.gameType ≠ .lz) : Move t (t.wait s) :=
  .quiet ((Rests.of_same (.refl t) rfl rfl rfl rfl).wait rfl hs hcp) rfl rfl

theorem Rests.settles (h : Settles t u) : Rests t u where
  keeps := h.same.keeps
  dizhu := by rw [h.play]
  pKanPai := by rw [h.toMld]
  seats := by rw [h.toLobby]
  ready := by
    rw [h.toLobby]
    exact ⟨rfl, rfl⟩
  goesOn := by
    obtain ⟨p, hc | hc⟩ := h.ctrl
    · exact ⟨fun hu => .inl (by simpa only [AtCp, hc] using hu),
        fun ht => by simpa only [Onward, hc] using ht,
        fun hu => by simpa only [Idle, hc] using hu,
        fun hu => by simpa only [Dealing, hc] using hu⟩
    · exact .of_wait (s := .settlement) (by decide) (fun hs => by cases hs) (by rw [hc])
        (by rw [hc]) (by rw [hc])

theorem Move.settles (h : Settles t u) : Move t u :=
  .quiet (.settles h) (by rw [h.play]) h.outbox

theorem not_idle {s : Status} (h : t.status = s) (hs : s ≠ .waitP ∧ s ≠ .ready) : ¬ t.Idle := by
  rintro ⟨hw | hr, -⟩
  · exact hs.1 (h.symm.trans hw)
  · exact hs.2 (h.symm.trans hr)

theorem not_atCp {s : Status} (h : t.status = s) (hs : s ≠ .cp) (ht : t.time = false) :
    ¬ t.AtCp := by
  rintro (hc | ⟨hc, -⟩)
  · exact hs (h.symm.trans hc)
  · rw [ht] at hc
    cases hc

end Rest

section Bidding

variable {t u v : Table} {p : Nat}

theorem moves_noDizhu (hidle : ¬ t.Idle) : MoveChain t t.noDizhu := by
  have hcount : Move t { t with noDizhuCount := t.noDizhuCount + 1 } :=
    .quiet (.of_same ⟨rfl, rfl, rfl, rfl, rfl, rfl, rfl⟩ rfl rfl rfl rfl) rfl rfl
  refine .head hcount ?_
  unfold noDizhu
  dsimp only
  split
  · refine .head (b := { t with noDizhuCount := t.noDizhuCount + 1, raceCount := 0 }) ?_
      (.single (.settles (settles_settlement _ 0)))
    exact .quiet (.of_same ⟨rfl, rfl, rfl, rfl, rfl, rfl, rfl⟩ rfl rfl rfl rfl) rfl rfl
  · exact .single (.again (t := { t with noDizhuCount := t.noDizhuCount + 1 }) hidle)

theorem moves_afterBidding (t : Table) : MoveChain t t.afterBidding := by
  unfold afterBidding
  split
  · exact .single (.wait (by decide) fun h => by cases h)
  · split
    · exact .single (.wait (by decide) fun h => by cases h)
    · next hlz =>
      have hready : Rests t t.readyChupai :=
        .of_same ⟨rfl, rfl, rfl, rfl, rfl, rfl, rfl⟩ rfl rfl rfl rfl
      exact .single (.quiet (hready.wait rfl (by decide) fun _ => .inr hlz) rfl rfl)

theorem jdzTable_frame (t : Table) (p rate : Nat) :
    (t.jdzTable p rate).toMld = t.toMld ∧ (t.jdzTable p rate).toLobby = t.toLobby ∧
      (t.jdzTable p rate).outbox = t.outbox ++
        t.seats.map fun s => (s, .jdz (t.jdzTable p rate).lastAct) := by
  unfold jdzTable libJiaoDizhu erJiaoDizhu norJiaoDizhu
  dsimp only
  split_ifs <;> exact ⟨by simp, by simp, by simp [seats, lastAct]⟩

theorem erQdzTable_frame (t : Table) (p rate : Nat) :
    (t.erQdzTable p rate).toMld = t.toMld ∧ (t.erQdzTable p rate).toLobby = t.toLobby ∧
      (t.erQdzTable p rate).outbox = t.outbox ++
        t.seats.map fun s => (s, .erQdz (t.erQdzTable p rate).lastAct) := by
  unfold erQdzTable libErQiangDizhu
  dsimp only
  split_ifs <;> exact ⟨by simp, by simp, by simp [seats, lastAct]⟩

theorem Bids.lastAct {a : Act} (h : Bids t u a) : u.lastAct = a := by
  simp [Table.lastAct, h.actList]

theorem Sends.of_map {P : Msg → Prop} (hc : u.cfg = t.cfg) {l : List Nat} {m : Nat → Msg}
    (ho : u.outbox = t.outbox ++ l.map fun s => (s, m s)) (hm : ∀ s, P (m s)) : Sends P t u := by
  refine ⟨hc, _, ho, fun x hx => ?_⟩
  obtain ⟨s, -, rfl⟩ := List.mem_map.mp hx
  exact hm s

theorem Bids.isBid {a : Act} (h : Bids t u a) (hbids : ∀ b ∈ t.play.actList, b.IsBid)
    (ha : a.IsBid) : ∀ b ∈ u.play.actList, b.IsBid := by
  rw [h.actList]
  simpa [or_imp, forall_and] using ⟨hbids, ha⟩

theorem Move.call {a : Act} {m : Nat → Msg} (hb : Bids t u a) (hk : Keeps t u)
    (hp : u.pKanPai = t.pKanPai) (hl : u.toLobby = t.toLobby) (hcards : t.Conserved)
    (hbids : ∀ b ∈ t.play.actList, b.IsBid) (ha : a.IsBid)
    (ho : u.outbox = t.outbox ++ t.seats.map fun s => (s, m s)) (hm : ∀ s, (m s).Neutral) :
    Move t u :=
  .bid _ (.of_same hk hb.dizhu hp hl hb.toCtrl) hcards hb.actList (hb.isBid hbids ha)
    (.of_map hb.cfg ho hm)

theorem moves_jiaoDizhu (h : t.Cards) (hi : t.Inv) (hp : p ∈ t.cfg.seatList) (rate : Nat) :
    MoveChain t (t.jiaoDizhu p rate).table := by
  rcases jiaoDizhu_cases hi.base hp rate with heq | ⟨hs, ⟨r, hbids⟩, hres⟩
  · rw [heq]
  have hst := hi.status
  have hcards := h.status
  rw [hs] at hst hcards
  obtain ⟨htime, -⟩ := hi.quiet (by simp [hs]) (by simp [hs]) (by simp [hs])
  have hkeeps := t.keeps_jdzTable p rate
  obtain ⟨hmld, hlobby, hout⟩ := t.jdzTable_frame p rate
  generalize (t.jiaoDizhu p rate).table = T at hres
  generalize t.jdzTable p rate = v at hbids hkeeps hmld hlobby hout hres
  rw [hbids.lastAct] at hout
  have hbid : Act.IsBid ⟨OtherType.jdz, p, r, [], 0, none, []⟩ := by
    simp [Act.IsBid, OtherType.jdz]
  have hv : v.status = .jdz := by rw [hbids.toCtrl, hs]
  have hvidle : ¬ v.Idle := not_idle hv (by decide)
  have hvcards := hkeeps.cardsFor (s := .jdz) hcards
  have hland {d : Nat} (hd : d ∈ t.cfg.seatList) : Move v (v.setDizhu d none) :=
    .landlord none hvcards.1 hvcards.2
      (not_atCp hv (by decide) (by rw [hbids.toCtrl, htime])) (by rwa [hbids.cfg])
  refine .head (.call hbids hkeeps (by rw [hmld]) hlobby hcards.1 hst.1.2 hbid hout
    fun _ => hbid) ?_
  rcases hres with rfl | rfl | ⟨-, -, rfl⟩ | ⟨d, hd, her, rfl⟩ | ⟨d, hd, -, rfl⟩
  · exact moves_noDizhu hvidle
  · exact .single (.wait (by decide) fun h => by cases h)
  · exact .single (.wait (by decide) fun h => by cases h)
  · refine .head (hland hd) (.single (.wait (by decide) fun _ => .inr ?_))
    simp [hbids.cfg, her]
  · exact .head (hland hd) (moves_afterBidding _)

theorem moves_erQiangDizhu (h : t.Cards) (hi : t.Inv) (p rate : Nat) :
    MoveChain t (t.erQiangDizhu p rate).table := by
  by_cases hs : t.status = .erQiangdizhu
  · have hst := hi.status
    have hcards := h.status
    rw [hs] at hst hcards
    obtain ⟨hbidding, her, hcur⟩ := hst
    rcases erQiangDizhu_cases her hcur p rate with heq | ⟨-, hbids, hres⟩
    · rw [heq]
    obtain ⟨htime, -⟩ := hi.quiet (by simp [hs]) (by simp [hs]) (by simp [hs])
    have hkeeps := t.keeps_erQdzTable p rate
    obtain ⟨hmld, hlobby, hout⟩ := t.erQdzTable_frame p rate
    generalize (t.erQiangDizhu p rate).table = T at hres
    generalize t.erQdzTable p rate = v at hbids hkeeps hmld hlobby hout hres
    rw [hbids.lastAct] at hout
    have hbid : Act.IsBid ⟨OtherType.erQdz, p, rate, [], 0, none, []⟩ := by
      simp [Act.IsBid, OtherType.erQdz]
    have hv : v.status = .erQiangdizhu := by rw [hbids.toCtrl, hs]
    have hvcards := hkeeps.cardsFor (s := .erQiangdizhu) hcards
    refine .head (.call hbids hkeeps (by rw [hmld]) hlobby hcards.1 hbidding.2 hbid hout
      fun _ => hbid) ?_
    rcases hres with ⟨d, hd, rfl⟩ | ⟨-, rfl⟩
    · have hland : Move v (v.setDizhu d none) :=
        .landlord none hvcards.1 hvcards.2
          (not_atCp hv (by decide) (by rw [hbids.toCtrl, htime])) (by rwa [hbids.cfg])
      refine .head hland (.single (.wait (by decide) fun _ => .inr ?_))
      simp [hbids.cfg, her]
    · exact .single (.wait (by decide) fun h => by cases h)
  · rw [erQiangDizhu, if_pos hs]
    exact .refl

theorem sends_sendIf {P : Msg → Prop} {b : Bool} {msg : Msg} (hc : u.cfg = t.cfg)
    (ho : u.outbox = t.outbox) (hm : P msg) : Sends P t (u.sendIf b p msg) :=
  (Sends.of_eq hc ho).trans (.sendIf hm)

def jiabeiTable (t : Table) (p rate : Nat) : Table :=
  let u := (t.libJiabei p rate).2
  let u := { u with pJiabei := Function.update u.pJiabei p (some rate) }
  u.sendIf true p (.myJiabei u.lastAct)

theorem jiabei_cases (t : Table) (p rate : Nat) :
    (t.jiabei p rate).table = t ∨
      t.status = .jiabei ∧
        ((t.jiabei p rate).table = t.jiabeiTable p rate ∨
          ∃ (n : Nat) (r : Nat → Nat), (t.jiabei p rate).table =
            let u := (t.jiabeiTable p rate).sendAll fun s =>
              .jiabei ((t.jiabeiTable p rate).play.actList.drop n) (r s)
            if t.cfg.gameType = .lz then u.wait .createLz else u.readyChupai.wait .cp) := by
  unfold jiabei
  split
  · exact .inl rfl
  · next hs =>
    simp only [not_or, not_not] at hs
    refine .inr ⟨hs.1, ?_⟩
    unfold libJiabei
    dsimp only
    split
    · refine .inr ⟨(t.jiabeiTable p rate).play.actList.length - 3,
        (t.jiabeiTable p rate).pRate, ?_⟩
      split
      · next hlz => exact (if_pos hlz).symm
      · next hlz => exact (if_neg hlz).symm
    · exact .inl rfl

theorem moves_jiabei (h : t.Cards) (hi : t.Inv) (p rate : Nat) :
    MoveChain t (t.jiabei p rate).table := by
  rcases t.jiabei_cases p rate with heq | ⟨hs, hres⟩
  · rw [heq]
  have hst := hi.status
  have hcards := h.status
  rw [hs] at hst hcards
  have hbid : Act.IsBid ⟨OtherType.jiabei, p, rate, [], 0, none, []⟩ := by
    simp [Act.IsBid, OtherType.jiabei]
  have hbids : Bids t (t.jiabeiTable p rate) ⟨OtherType.jiabei, p, rate, [], 0, none, []⟩ :=
    ⟨rfl, rfl, rfl, rfl, rfl⟩
  have hkeeps : Keeps t (t.jiabeiTable p rate) := ⟨rfl, rfl, rfl, rfl, rfl, rfl, rfl⟩
  have hsent : Sends Msg.Neutral t (t.jiabeiTable p rate) := by
    refine sends_sendIf rfl rfl ?_
    change Act.IsBid (t.jiabeiTable p rate).lastAct
    rwa [hbids.lastAct]
  have hacts := hbids.isBid hst.1.2 hbid
  have hmove : Move t (t.jiabeiTable p rate) :=
    .bid _ (.of_same hkeeps rfl rfl rfl rfl) hcards.1 hbids.actList hacts hsent
  have hcfg : (t.jiabeiTable p rate).cfg = t.cfg := rfl
  have hcons := hkeeps.conserved hcards.1
  refine .head hmove ?_
  generalize t.jiabeiTable p rate = v at hres hcfg hacts hcons
  rcases hres with hres | ⟨n, r, hres⟩
  · rw [hres]
  · have hall : Move v (v.sendAll fun s => .jiabei (v.play.actList.drop n) (r s)) := by
      refine .bid [] (.of_same ⟨rfl, rfl, rfl, rfl, rfl, rfl, rfl⟩ rfl rfl rfl rfl)
        hcons (List.append_nil _).symm hacts (.sendAll fun s => ?_)
      exact fun act hact => hacts act (List.mem_of_mem_drop hact)
    rw [hres]
    refine .head hall ?_
    dsimp only
    split
    · exact .single (.wait (by decide) fun h => by cases h)
    · next hlz =>
      refine .single (.quiet (.wait (.of_same ?_ rfl rfl rfl rfl) rfl (by decide)
        fun _ => .inr (hcfg ▸ hlz)) rfl rfl)
      exact ⟨rfl, rfl, rfl, rfl, rfl, rfl, rfl⟩

end Bidding

section Blind

variable {t u : Table} {p : Nat}

theorem conserved_kanMyPai (h : t.Conserved) (p : Nat) : (t.kanMyPai p).Conserved :=
  Keeps.conserved (t := t) ⟨rfl, rfl, rfl, rfl, rfl, rfl, rfl⟩ h

theorem moves_kanMyPai (h : t.Conserved) (hdz : t.dzTaken = false) :
    MoveChain t (((t.kanMyPai 1).kanMyPai 2).kanMyPai 3) := by
  have h1 := conserved_kanMyPai h 1
  have h2 := conserved_kanMyPai h1 2
  exact .head (.look 1 h hdz) (.head (.look 2 h1 hdz) (.single (.look 3 h2 hdz)))

theorem moves_startCp (h : t.Conserved) (hdz : t.dzTaken = false) (hmld : t.cfg.isMld)
    (hd : t.play.dizhu ∈ t.cfg.seatList) : MoveChain t t.startCp := by
  refine (moves_kanMyPai h hdz).trans ?_
  have hcons := conserved_kanMyPai (conserved_kanMyPai (conserved_kanMyPai h 1) 2) 3
  unfold startCp
  dsimp only
  generalize hu : ((t.kanMyPai 1).kanMyPai 2).kanMyPai 3 = u at hcons ⊢
  have hcfg : u.cfg = t.cfg := by rw [← hu]; rfl
  have hdzu : u.dzTaken = false := by rw [← hu]; exact hdz
  have hshown : ∀ s ∈ u.cfg.seatList, u.pKanPai s := by
    intro s hs
    have hs3 := mem_three hs
    rw [← hu]
    simp only [List.mem_cons, List.not_mem_nil, or_false] at hs3
    rcases hs3 with rfl | rfl | rfl <;> simp
  have hdu : u.play.dizhu ∈ u.cfg.seatList := by
    rw [hcfg, ← hu]
    exact hd
  have hbottom := Move.bottom (t := u) (fun s => (u.pSeatNumber s).all u.cfg.isReal = false ∨
    u.isMenZhua < 1 ∨ s = u.play.dizhu) hcons hdzu (hcfg ▸ hmld) hdu hshown (.inr (.inr rfl))
  refine .head hbottom (.single ?_)
  refine .quiet (.wait (.of_same ⟨rfl, rfl, rfl, rfl, rfl, rfl, rfl⟩ rfl rfl rfl rfl) rfl
    (by decide) fun _ => .inr ?_) rfl rfl
  rw [sendAll_cfg, fapaiDizhu_cfg, hcfg]
  have hnor : t.cfg.gameType = .nor := t.cfg.mld_nor (by simpa [Config.isMld] using hmld)
  simp [hnor]

structure Answers (t u : Table) : Prop where
  cfg : u.cfg = t.cfg
  play : u.play = t.play
  outbox : u.outbox = t.outbox
  cards : u.played = t.played ∧ u.dzTaken = t.dzTaken ∧ u.laizi = t.laizi
  pKanPai : u.pKanPai = t.pKanPai
  toLobby : u.toLobby = t.toLobby
  toCtrl : u.toCtrl = t.toCtrl

theorem Answers.keeps (h : Answers t u) : Keeps t u :=
  ⟨h.cfg, by rw [h.play], by rw [h.play], by rw [h.play], h.cards.1, h.cards.2.1, h.cards.2.2⟩

theorem Move.answers (h : Answers t u) : Move t u :=
  .quiet (.of_same h.keeps (by rw [h.play]) h.pKanPai h.toLobby h.toCtrl) (by rw [h.play]) h.outbox

structure MldCall (t u : Table) : Prop where
  move : Move t u
  keeps : Keeps t u
  toCtrl : u.toCtrl = t.toCtrl
  dizhu : u.play.dizhu = t.play.dizhu

theorem mldCall (hcards : t.Conserved) (hbids : ∀ b ∈ t.play.actList, b.IsBid)
    (h : Answers t u) {type : Nat} (htype : 100 ≤ type) {msg : Act → Msg}
    (hmsg : ∀ act, act.IsBid → (msg act).Neutral) : MldCall t (u.addMldAct type p msg) := by
  have hkeeps : Keeps t (u.addMldAct type p msg) := by
    refine h.keeps.trans ?_
    constructor <;> simp
  have hctrl : (u.addMldAct type p msg).toCtrl = t.toCtrl := by simp [h.toCtrl]
  have hdizhu : (u.addMldAct type p msg).play.dizhu = t.play.dizhu := by simp [h.play]
  refine ⟨.bid [⟨type, p, u.lastRate p, [], 0, none, []⟩]
    (.of_same hkeeps hdizhu ?_ ?_ hctrl) hcards ?_ ?_ ?_, hkeeps, hctrl, hdizhu⟩
  · simp [h.pKanPai]
  · simp [h.toLobby]
  · simp [h.play]
  · simp only [addMldAct_play, h.play, List.mem_append, List.mem_singleton]
    rintro b (hb | rfl)
    · exact hbids b hb
    · exact htype
  · refine .trans (.of_eq (u := u.addAct _) h.cfg h.outbox) (.sendAll fun s => hmsg _ ?_)
    exact htype

theorem menTable (h : t.Cards) (hi : t.Inv) (hs : t.status = .mldMen) :
    (t.Conserved ∧ t.dzTaken = false) ∧ (∀ a ∈ t.play.actList, a.IsBid) ∧ t.cfg.isMld ∧
      t.time = false := by
  have hst := hi.status
  have hcards := h.status
  rw [hs] at hst hcards
  exact ⟨hcards, hst.1.2, hst.2.1, (hi.quiet (by simp [hs]) (by simp [hs]) (by simp [hs])).1⟩

theorem Move.mldLandlord (hk : Keeps t u) (hcards : t.Conserved ∧ t.dzTaken = false)
    (hs : t.status = .mldMen) (htime : t.time = false) (hc : u.toCtrl = t.toCtrl)
    (hp : p ∈ t.cfg.seatList) (men : Option Nat) : Move u (u.setDizhu p men) := by
  refine .landlord men (hk.conserved hcards.1) (hk.dzTaken.trans hcards.2) ?_ (hk.cfg ▸ hp)
  refine not_atCp (s := .mldMen) ?_ (by decide) ?_
  · rw [hc, hs]
  · rw [hc, htime]

theorem moves_men (h : t.Cards) (hi : t.Inv) (hp : p ∈ t.cfg.seatList) (opt : Nat) :
    MoveChain t (t.men p opt).table := by
  unfold men
  split
  · exact .refl
  · next hs =>
    replace hs : t.status = .mldMen := by
      simp only [not_or, not_not] at hs
      exact hs.1
    obtain ⟨hcards, hbids, hmld, htime⟩ := menTable h hi hs
    split
    · exact .refl
    · split
      · dsimp only
        generalize hv : addMldAct _ OtherType.mldMen p .mldMen = v
        obtain ⟨hmove, hkeeps, hctrl, -⟩ : MldCall t v := by
          rw [← hv]
          refine mldCall hcards.1 hbids ?_ (by decide) fun _ h => h
          exact ⟨rfl, rfl, rfl, ⟨rfl, rfl, rfl⟩, rfl, rfl, rfl⟩
        have hmld' : v.cfg.isMld := by rw [hkeeps.cfg, hmld]
        have hset := hkeeps.trans (keeps_setDizhu_mld hmld' p (some 1))
        refine .head hmove (.head (.mldLandlord hkeeps hcards hs htime hctrl hp (some 1)) ?_)
        split
        · have hstart := moves_startCp (hset.conserved hcards.1) (hset.dzTaken.trans hcards.2)
            (by simpa using hmld') (by rwa [setDizhu_dizhu, hset.cfg])
          refine hstart.tail (.answers ?_)
          exact ⟨rfl, rfl, rfl, ⟨rfl, rfl, rfl⟩, rfl, rfl, rfl⟩
        · exact .single (.wait (by decide) fun h => by cases h)
      · split
        · exact .refl
        · dsimp only
          generalize hv : (t.addAct _).sendAll _ = v
          have hkeeps : Keeps t v := by
            rw [← hv]
            constructor <;> simp
          have hmove : Move t v := by
            rw [← hv]
            refine .bid [_] (.of_same (hv ▸ hkeeps) rfl rfl rfl rfl) hcards.1 rfl ?_ ?_
            · simpa [or_imp, forall_and, Act.IsBid, OtherType.mldKp] using hbids
            · exact .trans (.of_eq (u := t.addAct _) rfl rfl) (.sendAll fun _ => trivial)
          have hans : Answers v { v with menData := Function.update v.menData p (some 0) } :=
            ⟨rfl, rfl, rfl, ⟨rfl, rfl, rfl⟩, rfl, rfl, rfl⟩
          have hkept := hkeeps.trans hans.keeps
          refine .head hmove (.head (.answers hans) (.head (.look p ?_ ?_) (.single ?_)))
          · exact hkept.conserved hcards.1
          · exact hkept.dzTaken.trans hcards.2
          · exact .wait (by decide) fun h => by cases h

theorem moves_zhuaPai (h : t.Cards) (hi : t.Inv) (hp : p ∈ t.cfg.seatList) (opt : Nat) :
    MoveChain t (t.zhuaPai p opt).table := by
  unfold zhuaPai
  split
  · exact .refl
  · next hs =>
    replace hs : t.status = .mldMen := by
      simp only [not_or, not_not] at hs
      exact hs.1
    obtain ⟨hcards, hbids, hmld, htime⟩ := menTable h hi hs
    split
    · dsimp only
      generalize hv : addMldAct _ OtherType.mldZhua p .mldZp = v
      obtain ⟨hmove, hkeeps, hctrl, -⟩ : MldCall t v := by
        rw [← hv]
        refine mldCall hcards.1 hbids ?_ (by decide) fun _ h => h
        exact ⟨rfl, rfl, rfl, ⟨rfl, rfl, rfl⟩, rfl, rfl, rfl⟩
      have hmld' : v.cfg.isMld := by rw [hkeeps.cfg, hmld]
      have hset := hkeeps.trans (keeps_setDizhu_mld hmld' p (some 0))
      refine .head hmove (.head (.mldLandlord hkeeps hcards hs htime hctrl hp (some 0)) ?_)
      refine (moves_kanMyPai (hset.conserved hcards.1) (hset.dzTaken.trans hcards.2)).tail ?_
      exact .wait (by decide) fun h => by cases h
    · dsimp only
      generalize hv : addMldAct t OtherType.mldBz p .mldZp = v
      obtain ⟨hmove, -⟩ : MldCall t v := by
        rw [← hv]
        refine mldCall hcards.1 hbids ?_ (by decide) fun _ h => h
        exact ⟨rfl, rfl, rfl, ⟨rfl, rfl, rfl⟩, rfl, rfl, rfl⟩
      have hrest : Rests v ({ v with noZhuaCount := v.noZhuaCount + 1 }.setCurP
          (if 3 < v.play.curP + 1 then 1 else v.play.curP + 1)) :=
        .of_same ⟨rfl, rfl, rfl, rfl, rfl, rfl, rfl⟩ rfl rfl rfl rfl
      exact .head hmove (.single (.quiet (hrest.wait rfl (by decide) fun h => by cases h)
        rfl rfl))

theorem jbTable (h : t.Cards) (hi : t.Inv) (hs : t.status = .mldJb) :
    (t.Conserved ∧ t.dzTaken = false) ∧ (∀ a ∈ t.play.actList, a.IsBid) ∧
      t.play.dizhu ∈ t.cfg.seatList ∧ t.cfg.isMld := by
  have hst := hi.status
  have hcards := h.status
  rw [hs] at hst hcards
  exact ⟨hcards, hst.1.2, (hi.base.dizhu hst.1.1).1, hst.2.1⟩

theorem MldCall.answered {v : Table} (hv : MldCall t v) (hcards : t.Conserved ∧ t.dzTaken = false)
    (hd : t.play.dizhu ∈ t.cfg.seatList) (hmld : t.cfg.isMld) (p opt : Nat) :
    Move v { v with daoLaData := Function.update v.daoLaData p (some opt) } ∧
      MoveChain { v with daoLaData := Function.update v.daoLaData p (some opt) }
        ({ v with daoLaData := Function.update v.daoLaData p (some opt) }).startCp := by
  have hans : Answers v { v with daoLaData := Function.update v.daoLaData p (some opt) } :=
    ⟨rfl, rfl, rfl, ⟨rfl, rfl, rfl⟩, rfl, rfl, rfl⟩
  have hkept := hv.keeps.trans hans.keeps
  refine ⟨.answers hans, moves_startCp (hkept.conserved hcards.1) (hkept.dzTaken.trans hcards.2)
    ?_ ?_⟩
  · rwa [hkept.cfg]
  · rw [hkept.cfg]
    exact hv.dizhu ▸ hd

theorem moves_dao (h : t.Cards) (hi : t.Inv) (hs : t.status = .mldJb) (p opt : Nat) :
    MoveChain t (t.dao p opt).table := by
  obtain ⟨hcards, hbids, hd, hmld⟩ := jbTable h hi hs
  unfold dao
  split
  · exact .refl
  · dsimp only
    generalize hv : addMldAct (t.daoRate p opt) _ p .mldDao = v
    have hcall : MldCall t v := by
      rw [← hv]
      refine mldCall hcards.1 hbids ?_ ?_ fun _ h => h
      · exact ⟨rfl, rfl, rfl, ⟨rfl, rfl, rfl⟩, rfl, rfl, rfl⟩
      · split <;> decide
    obtain ⟨hans, hstart⟩ := hcall.answered hcards hd hmld p opt
    refine .head hcall.move (.head hans ?_)
    split
    · split
      · exact .single (.wait (by decide) fun h => by cases h)
      · exact hstart
    · exact .refl

theorem moves_laEnd (hcards : t.Conserved ∧ t.dzTaken = false)
    (hbids : ∀ a ∈ t.play.actList, a.IsBid) (hd : t.play.dizhu ∈ t.cfg.seatList)
    (hmld : t.cfg.isMld) (p opt : Nat) : MoveChain t (t.laEnd p opt).table := by
  unfold laEnd
  dsimp only
  generalize hv : addMldAct t _ p .mldLa = v
  have hcall : MldCall t v := by
    rw [← hv]
    refine mldCall hcards.1 hbids ?_ ?_ fun _ h => h
    · exact ⟨rfl, rfl, rfl, ⟨rfl, rfl, rfl⟩, rfl, rfl, rfl⟩
    · split <;> decide
  obtain ⟨hans, hstart⟩ := hcall.answered hcards hd hmld p opt
  exact .head hcall.move (.head hans hstart)

theorem moves_la (h : t.Cards) (hi : t.Inv) (hs : t.status = .mldJb)
    (hcur : t.play.curP = t.play.dizhu) (p opt : Nat) : MoveChain t (t.la p opt).table := by
  obtain ⟨hcards, hbids, hd, hmld⟩ := jbTable h hi hs
  by_cases hopt : 0 < opt
  · have hst := hi.status
    rw [hs] at hst
    obtain ⟨hdouble, -, -, -, hall⟩ := hst
    have hthree := nongmin_three hi.base hdouble.1 (isMld_gameType t.cfg hmld)
    replace hall := hall hcur
    rw [hthree] at hall
    obtain ⟨r, hla⟩ := la_eq (p := p) hopt (hall t.nm1 (by simp)) (hall t.nm2 (by simp))
    rw [hla]
    have hans : Answers t ((t.read .nongmin).setRate (t.sumNongmin r)) :=
      ⟨rfl, rfl, rfl, ⟨rfl, rfl, rfl⟩, rfl, rfl, rfl⟩
    refine .head (.answers hans) (moves_laEnd ⟨hans.keeps.conserved hcards.1, hcards.2⟩ hbids hd
      hmld p opt)
  · rw [la, if_neg hopt]
    exact moves_laEnd hcards hbids hd hmld p opt

theorem moves_daoLa (h : t.Cards) (hi : t.Inv) (p opt : Nat) :
    MoveChain t (t.daoLa p opt).table := by
  unfold daoLa
  split
  · exact .refl
  · next hs =>
    replace hs : t.status = .mldJb := by simpa using hs
    have hans : Answers t (t.read .daoLaData) :=
      ⟨rfl, rfl, rfl, ⟨rfl, rfl, rfl⟩, rfl, rfl, rfl⟩
    have hread : (t.read .daoLaData).Cards := h.congr ⟨rfl, rfl, ⟨rfl, rfl⟩, rfl⟩ rfl
    have hinv : (t.read .daoLaData).Inv := hi.congr rfl rfl ⟨rfl, rfl⟩ rfl rfl
    refine .head (.answers hans) ?_
    dsimp only
    split
    · exact .refl
    · split
      · exact .refl
      · split
        · next hla => exact moves_la hread hinv hs hla p opt
        · exact moves_dao hread hinv hs p opt

end Blind

section Play

variable {t u : Table} {p : Nat} {a : ChupaiArgs}

theorem libChupai_lays (h : t.Playable p a) :
    ((t.libChupai p a).table = t ∧
        ((t.libChupai p a).result = none ∨ (t.libChupai p a).result = some 1003)) ∨
      ((t.libChupai p a).result = some 0 ∨ (t.libChupai p a).result = some 1) ∧
        Plays t (t.libChupai p a).table (a.act p) ∧
        (a.type = 0 → isMustChupai t.cfg.gameType t.play.actList = false ∧
          Keeps t (t.libChupai p a).table) ∧
        (a.type ≠ 0 → ∃ cp, a.cpList = some cp ∧ cp.FromHand (t.play.pai p) t.laizi ∧
          a.mergeCpList.length = cp.norIds.length + cp.lzIds.length ∧
          Lays t (t.libChupai p a).table p (cp.cards (t.play.pai p) t.laizi)) := by
  rcases t.libChupai_spec p a with hsame | ⟨hplays, hpass⟩
  · exact .inl hsame
  refine .inr ?_
  suffices hsuff : ((t.libChupai p a).result = some 0 ∨ (t.libChupai p a).result = some 1) ∧
      (a.type = 0 → Keeps t (t.libChupai p a).table) ∧
      (a.type ≠ 0 → ∃ cp, a.cpList = some cp ∧ cp.FromHand (t.play.pai p) t.laizi ∧
        a.mergeCpList.length = cp.norIds.length + cp.lzIds.length ∧
        Lays t (t.libChupai p a).table p (cp.cards (t.play.pai p) t.laizi)) from
    ⟨hsuff.1, hplays, fun h0 => ⟨hpass h0, hsuff.2.1 h0⟩, hsuff.2.2⟩
  have hacts := hplays.actList
  unfold libChupai at hacts ⊢
  split at hacts
  · simp at hacts
  · simp at hacts
  · dsimp only
    split
    · next htype =>
      exact ⟨.inl rfl, fun _ => by constructor <;> simp, fun hne => absurd htype hne⟩
    · next htype =>
      obtain ⟨cp, hcp, hfrom, hlen⟩ := h htype
      obtain ⟨hok, hpai, hplayed⟩ := deduct_spec (t := t.addAct (a.act p)) hcp hfrom
      obtain ⟨hc, -, -, hh, -⟩ := (t.addAct (a.act p)).deduct_frame p a
      obtain ⟨hr, hdz, htaken⟩ := (t.addAct (a.act p)).deduct_keeps p a
      have hcard := CpList.card_cards hfrom
      generalize (t.addAct (a.act p)).deduct p a = q at hok hpai hplayed hc hh hr hdz htaken
      obtain ⟨u, ok⟩ := q
      dsimp only at hok hpai hplayed hc hh hr hdz htaken
      subst hok
      dsimp only
      have hlays : Lays t { u with play := { u.play with
          remainPai := Function.update u.play.remainPai p
            (u.play.remainPai p - a.mergeCpList.length) } } p
          (cp.cards (t.play.pai p) t.laizi) := by
        refine ⟨hc, hpai, ?_, hdz, hplayed, htaken⟩
        rw [hlen, ← hcard]
        dsimp only
        rw [hr]
        rfl
      split
      · exact ⟨.inr rfl, fun h0 => absurd h0 htype, fun _ =>
          ⟨cp, hcp, hfrom, hlen, hlays.cfg, hlays.pai, hlays.remainPai, hlays.dzPai,
            hlays.played, hlays.dzTaken⟩⟩
      · exact ⟨.inl rfl, fun h0 => absurd h0 htype, fun _ =>
          ⟨cp, hcp, hfrom, hlen, hlays.cfg, hlays.pai, hlays.remainPai, hlays.dzPai,
            hlays.played, hlays.dzTaken⟩⟩

theorem chupai_cases (hs : t.status = .cp ∧ t.play.curP = p) (ha : t.Playable p a ∧ a.CountsWild) :
    ((t.chupai p a).table = t ∧ (t.libChupai p a).table = t ∧
        ((t.libChupai p a).result = none ∨ (t.libChupai p a).result = some 1003)) ∨
      ∃ v, Laid t v p a ∧ (a.type = 0 → isMustChupai t.cfg.gameType t.play.actList = false) ∧
        v.play = (t.libChupai p a).table.play ∧ (t.chupai p a).result = some 0 ∧
        ((t.libChupai p a).result = some 1 ∧ (t.chupai p a).table = v.settlement p ∨
          (t.libChupai p a).result = some 0 ∧ (t.chupai p a).table = v.wait .cp) := by
  have hspec := libChupai_lays ha.1
  unfold chupai
  rw [if_neg (by simp [hs])]
  generalize t.libChupai p a = q at hspec
  obtain ⟨res, u⟩ := q
  dsimp only at hspec
  rcases hspec with ⟨rfl, rfl | rfl⟩ | ⟨hres, hplays, hpass, hlays⟩
  · exact .inl ⟨rfl, rfl, .inl rfl⟩
  · exact .inl ⟨rfl, rfl, .inr rfl⟩
  · refine .inr ⟨(u.countPlay p a.type).sendAll fun _ =>
      .cp (u.countPlay p a.type).lastAct ((u.countPlay p a.type).pRate p), ?_,
      fun h0 => (hpass h0).1, by simp, ?_⟩
    · generalize hv : (u.countPlay p a.type).sendAll _ = v
      have hkeeps : Keeps u v := by
        rw [← hv]
        constructor <;> simp
      have hlast : u.lastAct = a.act p := by simp [lastAct, hplays.actList]
      have hseats : u.seats = t.seats := by simp only [seats, hplays.toLobby]
      constructor
      · rw [← hv]
        simp [hplays.actList]
      · rw [← hv]
        simp [hplays.dizhu]
      · rw [← hv]
        simp [hplays.toMld]
      · rw [← hv]
        simp [hplays.toLobby]
      · rw [← hv]
        simp [hplays.toCtrl]
      · exact fun h0 => (hpass h0).2.trans hkeeps
      · intro hne
        obtain ⟨cp, hcp, hfrom, hlen, hl⟩ := hlays hne
        refine ⟨cp, hcp, hfrom, hlen, ha.2 hne cp hcp, ⟨hkeeps.cfg.trans hl.cfg,
          hkeeps.pai.trans hl.pai, hkeeps.remainPai.trans hl.remainPai,
          hkeeps.dzPai.trans hl.dzPai, hkeeps.played.trans hl.played,
          hkeeps.dzTaken.trans hl.dzTaken⟩, ?_⟩
        rw [hkeeps.laizi, hplays.hand]
      · refine ⟨(u.countPlay p a.type).pRate p, ?_⟩
        rw [← hv, ← hplays.outbox, ← hseats, ← hlast]
        rfl
    · rcases hres with rfl | rfl
      · exact ⟨rfl, .inr ⟨rfl, rfl⟩⟩
      · exact ⟨rfl, .inl ⟨rfl, rfl⟩⟩

theorem chupai_elsewhere (h : ¬ (t.status = .cp ∧ t.play.curP = p)) :
    (t.chupai p a).table = t := by
  rw [chupai, if_pos (not_and_or.mp h)]
  rfl

theorem moves_chupai (h : t.Cards) (hp : p ∈ t.cfg.seatList)
    (ha : t.status = .cp → t.play.curP = p → t.Playable p a ∧ a.CountsWild)
    (hwf : (PaiType.mk a.type a.keyPai).Wf) : MoveChain t (t.chupai p a).table := by
  by_cases hs : t.status = .cp ∧ t.play.curP = p
  · have hcards := h.status
    rw [hs.1] at hcards
    rcases chupai_cases hs (ha hs.1 hs.2) with
      ⟨heq, -⟩ | ⟨v, hlaid, hpass, -, -, ⟨-, heq⟩ | ⟨-, heq⟩⟩
    · rw [heq]
    · rw [heq]
      exact .head (.lay hcards.1 hcards.2 (.inl hs.1) hp hwf hpass hlaid)
        (.single (.settles (settles_settlement _ _)))
    · rw [heq]
      refine .head (.lay hcards.1 hcards.2 (.inl hs.1) hp hwf hpass hlaid)
        (.single (.wait (by decide) fun _ => .inl (.inl ?_)))
      rw [hlaid.ctrl, hs.1]
  · rw [chupai_elsewhere hs]

end Play

section Timer

variable {t u : Table} {s : Status}

structure Enters (t u : Table) (s : Status) : Prop where
  keeps : Keeps t u
  dizhu : u.play.dizhu = t.play.dizhu
  actList : u.play.actList = t.play.actList
  pKanPai : u.pKanPai = t.pKanPai
  toLobby : u.toLobby = t.toLobby
  status : u.status = s
  time : u.time = false
  nextStatus : u.nextStatus = t.nextStatus
  updating : u.updating = t.updating
  sends : Sends Msg.Silent t u

theorem Move.enter (h : Enters t u s) (hs : s ≠ .waitP ∧ s ≠ .ready) (hcp : s = .cp → t.AtCp) :
    Move t u := by
  refine .rest ⟨h.keeps, h.dizhu, h.pKanPai, by rw [h.toLobby], ?_, ?_⟩ h.actList h.sends
  · rw [h.toLobby]
    exact ⟨rfl, rfl⟩
  · exact .of_enter hs hcp h.status h.time h.nextStatus fun hu => .inl (h.updating.symm.trans hu)

theorem Enters.refl (t : Table) (s : Status) : Enters t (t.enter s) s :=
  ⟨⟨rfl, rfl, rfl, rfl, rfl, rfl, rfl⟩, rfl, rfl, rfl, rfl, rfl, rfl, rfl, rfl, .of_eq rfl rfl⟩

theorem Enters.sendAll (h : Enters t u s) {m : Nat → Msg} (hm : ∀ p, (m p).Silent) :
    Enters t (u.sendAll m) s :=
  ⟨h.keeps.trans ⟨rfl, rfl, rfl, rfl, rfl, rfl, rfl⟩, h.dizhu, h.actList, h.pKanPai, h.toLobby,
    h.status, h.time, h.nextStatus, h.updating, h.sends.trans (.sendAll hm)⟩

theorem Enters.leave (h : Enters t u s) : Enters t { u with gone := true } s :=
  ⟨h.keeps.trans ⟨rfl, rfl, rfl, rfl, rfl, rfl, rfl⟩, h.dizhu, h.actList, h.pKanPai, h.toLobby,
    h.status, h.time, h.nextStatus, h.updating, h.sends.trans (.of_eq rfl rfl)⟩

theorem move_changeStatus (h : t.CardsFor s) (hnext : t.MayEnter s) (hidle : ¬ t.Idle)
    (htime : t.time = true) (hs : t.nextStatus = some s) (honward : t.Onward) (rand : Nat) :
    MoveChain t ({ t with time := false }.changeStatus rand s) := by
  have hcp : s = .cp → t.AtCp := fun hcp => .inr ⟨htime, hs.trans (congrArg some hcp)⟩
  have hback := honward s hs
  simp only [List.mem_cons, List.not_mem_nil, or_false, not_or] at hback
  obtain ⟨hwait, hready, hbegin⟩ := hback
  have hback : s ≠ .waitP ∧ s ≠ .ready := ⟨hwait, hready⟩
  cases s with
  | waitP => exact absurd rfl hwait
  | ready => exact absurd rfl hready
  | gameBegin => exact absurd rfl hbegin
  | fp =>
      refine .single (.quiet ⟨⟨rfl, rfl, rfl, rfl, rfl, rfl, rfl⟩, rfl, rfl, rfl, ⟨rfl, rfl⟩, ?_⟩
        rfl rfl)
      exact .of_enter (s := .fp) (by decide) (fun h => by cases h) rfl rfl rfl
        fun _ => .inr ⟨htime, hs⟩
  | settlement =>
      refine .single (.quiet ⟨⟨rfl, rfl, rfl, rfl, rfl, rfl, rfl⟩, rfl, rfl, rfl, ⟨rfl, rfl⟩, ?_⟩
        rfl rfl)
      exact .of_enter (s := .settlement) (by decide) (fun h => by cases h) rfl rfl rfl
        fun h => by cases h
  | createLz =>
      have hmove : Move t { t with time := false } := by
        refine .quiet ⟨⟨rfl, rfl, rfl, rfl, rfl, rfl, rfl⟩, rfl, rfl, rfl, ⟨rfl, rfl⟩, ?_⟩ rfl rfl
        refine ⟨fun hu => .inl (hu.imp_right fun h => by cases h.1), id, id, ?_⟩
        exact fun hu => hu.imp_right fun h => by cases h.1
      refine .head hmove (.single (.wild rand ?_ h.2 hnext.2 hidle))
      exact Keeps.conserved (t := t) ⟨rfl, rfl, rfl, rfl, rfl, rfl, rfl⟩ h.1
  | jdz | erQiangdizhu | cp =>
      refine .single (.enter (.sendAll ?_ fun _ => trivial) hback hcp)
      exact .refl _ _
  | mldMen | mldJb | jiabei =>
      refine .single (.enter (.sendAll ?_ fun _ => trivial) hback hcp)
      exact ⟨⟨rfl, rfl, rfl, rfl, rfl, rfl, rfl⟩, rfl, rfl, rfl, rfl, rfl, rfl, rfl, rfl,
        .of_eq rfl rfl⟩
  | wait => exact .single (.enter (.refl _ _) hback hcp)
  | gameover | gamecancel =>
      refine .single (.enter (.leave (.sendAll ?_ fun _ => trivial)) hback hcp)
      exact .refl _ _

theorem moves_update (h : t.Cards) (hi : t.Inv) (honward : t.Onward) (rand : Nat) :
    MoveChain t (t.update rand) := by
  unfold update
  split
  · next htime =>
    dsimp only
    split
    · refine .single (.quiet ⟨⟨rfl, rfl, rfl, rfl, rfl, rfl, rfl⟩, rfl, rfl, rfl, ⟨rfl, rfl⟩, ?_⟩
        rfl rfl)
      refine ⟨fun hu => .inl (hu.imp_right fun h => by cases h.1), id, id, ?_⟩
      exact fun hu => hu.imp_right fun h => by cases h.1
    · next s hs =>
      refine move_changeStatus (h.next htime.1 s hs) (hi.next htime.1 s hs) ?_ htime.1 hs honward
        rand
      rintro ⟨hst, -⟩
      rcases hi.timer htime.1 with hw | hw | hw <;> simp [hw] at hst
  · exact .refl

theorem move_gameover (t : Table) : Move t t.gameover := by
  refine .enter (.leave (.sendAll (.refl _ _) fun _ => trivial)) (by decide) fun h => by cases h

theorem move_gamecancel (t : Table) : Move t t.gamecancel := by
  refine .enter (.leave (.sendAll (.refl _ _) fun _ => trivial)) (by decide) fun h => by cases h

theorem moves_cancelGame (t : Table) : MoveChain t t.cancelGame.table := by
  unfold cancelGame
  split
  · exact .refl
  · exact .single (move_gamecancel t)

theorem moves_breakGame (t : Table) : MoveChain t t.breakGame.table := by
  unfold breakGame
  split
  · exact .refl
  · have hbreak : Move t { t with isBreakGame := true } :=
      .quiet (.of_same ⟨rfl, rfl, rfl, rfl, rfl, rfl, rfl⟩ rfl rfl rfl rfl) rfl rfl
    refine .head hbreak ?_
    dsimp only
    split
    · exact .single (move_gameover _)
    · split
      · exact .single (.settles (settles_settlement _ _))
      · exact .refl

theorem moves_settlementFinish (F : NumFormat) (hi : t.Inv) (hu : t.updating = some .score)
    (answer : Nat → Int → Int) :
    MoveChain t (settlementFinish F { t with updating := none } answer) := by
  have hidle : ¬ t.Idle := by
    rintro ⟨hst, -⟩
    rcases hi.paying hu with hw | hw <;> simp [hw] at hst
  unfold settlementFinish
  dsimp only
  generalize hv : Table.read _ .isChuntian = v
  have hmove : Move t v := by
    rw [← hv]
    refine .quiet ⟨⟨rfl, rfl, rfl, rfl, rfl, rfl, rfl⟩, rfl, rfl, rfl, ⟨rfl, rfl⟩, ?_⟩ rfl rfl
    refine ⟨fun hu => .inl hu, id, id, fun hu => ?_⟩
    exact hu.imp_left fun h => by cases h
  have hctrl : v.toCtrl = { t.toCtrl with updating := none } := by
    rw [← hv]
    rfl
  refine .head hmove ?_
  unfold nextGame
  split
  · next hnext =>
    have hover : (v.raceCount = v.curRace ∨ v.isBreakGame = true) = False := by
      simp only [sendAll_toRaces] at hnext
      exact eq_false (not_or.mpr ⟨by omega, hnext.2⟩)
    simp only [hover, decide_false]
    refine .single (.next _ ?_ (by rw [hctrl]))
    simpa only [Idle, hctrl] using hidle
  · generalize decide (v.raceCount = v.curRace ∨ v.isBreakGame = true) = isOver
    refine .single (.rest ⟨⟨rfl, rfl, rfl, rfl, rfl, rfl, rfl⟩, rfl, rfl, rfl, ⟨rfl, rfl⟩, ?_⟩ rfl
      (.trans (.sendAll (m := fun _ => .settlement v.isChuntian isOver) fun _ => trivial)
        (.of_eq rfl rfl)))
    refine ⟨fun hu => .inl ?_, ?_, id, ?_⟩
    · rcases hu with hu | ⟨-, hu⟩
      · exact .inl hu
      · cases hu
    · intro _ s hs
      obtain rfl := Option.some.inj hs
      decide
    · rintro (hu | ⟨-, hu⟩)
      · exact .inl hu
      · cases hu

end Timer

/-! ## Steps -/

theorem step_moves {t : Table} (h : t.Cards) (hi : t.Inv) (honward : t.Onward) (F : NumFormat)
    {e : Event} (he : t.Legal e)
    (hplay : ∀ seat args, e = .chupai seat args → t.status = .cp → t.play.curP = seat →
      t.Playable seat args ∧ args.CountsWild) : MoveChain t (t.step F e) := by
  unfold Table.step
  split
  · exact .refl
  · next hgone =>
    replace hgone : t.gone = false := by simpa using hgone
    have hfresh (hs : t.status = .waitP ∨ t.status = .ready) : t.Fresh := by
      have hst := hi.status
      rcases hs with hs | hs <;> rw [hs] at hst <;> exact h.fresh hst.1
    cases e with
    | join id seat =>
        by_cases hs : t.status = .waitP
        · exact .single (.join id seat ⟨.inl hs, hgone⟩ (hfresh (.inl hs)))
        · rw [handle, Table.join, if_pos (.inr (.inl hs))]
          exact .refl
    | playerExitGame seat => exact .single (.exit seat)
    | ready seat => exact .single (.ready ⟨he.2, hgone⟩ (hfresh he.2) he.1)
    | jiaoDizhu seat rate => exact moves_jiaoDizhu h hi he rate
    | jiabei seat rate => exact moves_jiabei h hi seat rate
    | men seat opt => exact moves_men h hi he opt
    | zhuaPai seat opt => exact moves_zhuaPai h hi he opt
    | daoLa seat opt => exact moves_daoLa h hi seat opt
    | erQiangDizhu seat rate => exact moves_erQiangDizhu h hi seat rate
    | chupai seat args => exact moves_chupai h he.1 (hplay seat args rfl) he.2
    | auto seat type =>
        refine .single (.rest ⟨⟨rfl, rfl, rfl, rfl, rfl, rfl, rfl⟩, rfl, rfl, rfl, ⟨rfl, rfl⟩,
          .of_same rfl⟩ rfl ?_)
        exact .trans (.of_eq (u := { t with pAuto := Function.update t.pAuto seat (some type) })
          rfl rfl) (.sendAll fun _ => trivial)
    | cancelGame => exact moves_cancelGame t
    | breakGame => exact moves_breakGame t
    | overTimeCancelGame =>
        simp only [handle, Table.overTimeCancelGame]
        split
        · exact moves_cancelGame t
        · exact moves_breakGame t
    | update rand => exact moves_update h hi honward rand
    | fapaiAnswer ρ rand =>
        simp only [handle]
        split
        · next hu =>
          obtain ⟨hundealt, hs⟩ := hi.dealing hu
          refine .single (.deal ρ rand (h.fresh hundealt.1) hu ?_ ?_)
          · rintro ⟨hst, -⟩
            rcases hs with hs | hs <;> simp [hs] at hst
          · intro hst
            rcases hs with hs | hs <;> simp [hs] at hst
        · exact .refl
    | capAnswer call answer =>
        simp only [handle]
        split
        · refine .head (b := { t with pending := t.pending.erase call }) ?_
            (.single (.settles (settles_resumeSettlement _ _ _)))
          refine .quiet ⟨⟨rfl, rfl, rfl, rfl, rfl, rfl, rfl⟩, rfl, rfl, rfl, ⟨rfl, rfl⟩, ?_⟩ rfl rfl
          exact ⟨.inl, id, id, id⟩
        · exact .refl
    | scoreAnswer answer =>
        simp only [handle]
        split
        · next hu => exact moves_settlementFinish F hi hu answer
        · exact .refl

end Table

end JyQipai.Ddz
