import JyQipai.Ddz.InStep

/-!
# No move parts an agent from its table

Between two hands an agent that is ready has nothing of the last hand left.  From the deal on it
follows the table, through every move of the hand and whatever the other players do.
-/

namespace JyQipai.Ddz

open JyQipai.Lib
open Table (ChupaiArgs)

namespace Table

variable {t u : Table}

def AtSeats (t : Table) (P : Nat → Prop) : Prop := ∀ s ∈ t.seats, s ∈ t.cfg.seatList → P s

structure Steady (t : Table) : Prop where
  onward : t.Onward
  rank : ∀ lz ∈ t.laizi, 3 ≤ lz ∧ lz ≤ 15
  none : t.cfg.gameType ≠ .lz → t.laizi = none
  wild : t.AtCp → t.cfg.gameType = .lz → t.laizi.isSome
  unplayed : t.dzTaken = false → t.played = ∅
  waiting : t.Idle ∨ t.Dealing → ¬ t.Conserved
  hidden : t.Idle ∨ t.Dealing → t.cfg.isMld → ∀ p, t.pKanPai p = false
  pressed : t.pReady ≤ t.cfg.seatList.countP fun s => t.ready s = 1

structure Synced (kaiguan : Nat → Bool) (t : Table) : Prop extends Steady t where
  idle : t.Idle → t.AtSeats fun s => (t.agent kaiguan s).ready.isSome ∧
    (t.ready s = 1 → (t.agent kaiguan s).Cleared)
  dealing : t.Dealing → t.AtSeats fun s => (t.agent kaiguan s).Cleared
  follows : t.Conserved → t.AtSeats fun s => Follows t s (t.agent kaiguan s)

section Steady

theorem Steady.laizi_rank (h : Steady t) : ∀ lz ∈ t.laizi, lz ∈ paiRanks := by
  intro lz hlz
  have := h.rank lz hlz
  rw [mem_paiRanks]
  omega

theorem Keeps.symm (h : Keeps t u) : Keeps u t :=
  ⟨h.cfg.symm, h.pai.symm, h.remainPai.symm, h.dzPai.symm, h.played.symm, h.dzTaken.symm,
    h.laizi.symm⟩

theorem Fresh.not_conserved (h : t.Fresh) : ¬ t.Conserved := fun hc => by
  have hlen := hc.dzPai.1
  rw [h.1] at hlen
  cases hlen

theorem Keeps.not_conserved (hk : Keeps t u) (h : t.Fresh) : ¬ u.Conserved := fun hc =>
  h.not_conserved (hk.symm.conserved hc)

theorem Steady.keeps (h : Steady t) (hk : Keeps t u) (hpKan : u.pKanPai = t.pKanPai)
    (hgo : GoesOn t u) (hpressed : u.pReady ≤ t.cfg.seatList.countP fun s => u.ready s = 1) :
    Steady u := by
  have ⟨hcfg, _, _, _, hplayed, hdz, hlz⟩ := hk
  have hback : u.Idle ∨ u.Dealing → t.Idle ∨ t.Dealing := Or.imp hgo.idle hgo.dealing
  refine ⟨hgo.onward h.onward, ?_, ?_, fun hcp hgame => ?_, ?_, fun hu hc => ?_, fun hu => ?_, ?_⟩
  · rw [hlz]
    exact h.rank
  · rw [hcfg, hlz]
    exact h.none
  · rw [hcfg] at hgame
    rw [hlz]
    exact h.wild ((hgo.atCp hcp).resolve_right (not_not.mpr hgame)) hgame
  · rw [hdz, hplayed]
    exact h.unplayed
  · exact h.waiting (hback hu) (hk.symm.conserved hc)
  · rw [hcfg, hpKan]
    exact h.hidden (hback hu)
  · rw [hcfg]
    exact hpressed

theorem Steady.rests (h : Steady t) (hr : Rests t u) : Steady u := by
  refine h.keeps hr.keeps hr.pKanPai hr.goesOn ?_
  rw [hr.ready.1, hr.ready.2]
  exact h.pressed

structure InHand (t u : Table) : Prop where
  cfg : u.cfg = t.cfg
  ctrl : u.toCtrl = t.toCtrl
  lobby : u.toLobby = t.toLobby
  laizi : u.laizi = t.laizi
  played : u.dzTaken = false → t.dzTaken = false ∧ u.played = t.played

theorem InHand.busy (h : InHand t u) (ht : Steady t) (hcons : t.Conserved) :
    ¬ (u.Idle ∨ u.Dealing) := by
  intro hu
  refine ht.waiting ?_ hcons
  simpa only [Idle, Dealing, h.ctrl] using hu

theorem InHand.atCp (h : InHand t u) : u.AtCp ↔ t.AtCp := by simp only [AtCp, h.ctrl]

theorem Steady.inHand (h : Steady t) (hcons : t.Conserved) (hu : InHand t u) : Steady u := by
  have hbusy := hu.busy h hcons
  refine ⟨?_, ?_, ?_, fun hcp hgame => ?_, fun hdz => ?_, fun hw => absurd hw hbusy,
    fun hw => absurd hw hbusy, ?_⟩
  · simpa only [Onward, hu.ctrl] using h.onward
  · rw [hu.laizi]
    exact h.rank
  · rw [hu.cfg, hu.laizi]
    exact h.none
  · rw [hu.cfg] at hgame
    rw [hu.laizi]
    exact h.wild (hu.atCp.mp hcp) hgame
  · obtain ⟨ht, hp⟩ := hu.played hdz
    rw [hp, h.unplayed ht]
  · rw [hu.cfg, hu.lobby]
    exact h.pressed

end Steady

section Synced

variable {kaiguan : Nat → Bool}

/-! ## Moves of the hand -/

theorem AtSeats.of_lobby {P Q : Nat → Prop} (h : t.AtSeats P) (hcfg : u.cfg = t.cfg)
    (hseats : u.pSeatNumber = t.pSeatNumber)
    (himp : ∀ s ∈ t.seats, s ∈ t.cfg.seatList → P s → Q s) : u.AtSeats Q := by
  have hs : u.seats = t.seats := by rw [seats, seats, hseats]
  intro s hmem hseat
  rw [hs] at hmem
  rw [hcfg] at hseat
  exact himp s hmem hseat (h s hmem hseat)

theorem Synced.inHand (h : Synced kaiguan t) (hcons : t.Conserved) (hu : InHand t u)
    (hfollows : ∀ s ∈ t.seats, s ∈ t.cfg.seatList → Follows t s (t.agent kaiguan s) →
      Follows u s (u.agent kaiguan s)) : Synced kaiguan u where
  toSteady := h.toSteady.inHand hcons hu
  idle hw := absurd (.inl hw) (hu.busy h.toSteady hcons)
  dealing hw := absurd (.inr hw) (hu.busy h.toSteady hcons)
  follows _ := (h.follows hcons).of_lobby hu.cfg (congrArg Lobby.pSeatNumber hu.lobby) hfollows

theorem agent_silent (kaiguan : Nat → Bool) (h : Sends Msg.Silent t u) (s : Nat) :
    Agent.KeepsCards (t.agent kaiguan s) (u.agent kaiguan s) ∧
      (u.agent kaiguan s).actList = (t.agent kaiguan s).actList := by
  refine h.agent (R := fun b => Agent.KeepsCards (t.agent kaiguan s) b ∧
    b.actList = (t.agent kaiguan s).actList) (fun b msg hmsg hb => ?_) ⟨.refl _, rfl⟩
  obtain ⟨hk, ha⟩ := b.receive_silent hmsg
  exact ⟨hb.1.trans hk, ha.trans hb.2⟩

theorem agent_neutral (kaiguan : Nat → Bool) (h : Sends Msg.Neutral t u) (s : Nat) :
    Agent.KeepsCards (t.agent kaiguan s) (u.agent kaiguan s) ∧
      (OnlyBids (t.agent kaiguan s).actList → OnlyBids (u.agent kaiguan s).actList) := by
  refine h.agent (R := fun b => Agent.KeepsCards (t.agent kaiguan s) b ∧
    (OnlyBids (t.agent kaiguan s).actList → OnlyBids b.actList))
    (fun b msg hmsg hb => ?_) ⟨.refl _, id⟩
  obtain ⟨hk, ha⟩ := b.receive_neutral hmsg
  exact ⟨hb.1.trans hk, fun h => ha (hb.2 h)⟩

theorem Synced.rest (h : Synced kaiguan t) (hr : Rests t u)
    (hacts : u.play.actList = t.play.actList) (hs : Sends Msg.Silent t u) : Synced kaiguan u where
  toSteady := h.toSteady.rests hr
  idle hidle := by
    refine (h.idle (hr.goesOn.idle hidle)).of_lobby hs.cfg hr.seats fun s _ _ ⟨hready, hclear⟩ => ?_
    obtain ⟨hk, ha⟩ := agent_silent kaiguan hs s
    exact ⟨hk.ready hready, fun hone => (hclear (hr.ready.1 ▸ hone)).keeps hk ha⟩
  dealing hdeal := by
    refine (h.dealing (hr.goesOn.dealing hdeal)).of_lobby hs.cfg hr.seats fun s _ _ hclear => ?_
    obtain ⟨hk, ha⟩ := agent_silent kaiguan hs s
    exact hclear.keeps hk ha
  follows hcons := by
    refine (h.follows (hr.keeps.symm.conserved hcons)).of_lobby hs.cfg hr.seats fun s _ _ hf => ?_
    obtain ⟨hk, ha⟩ := agent_silent kaiguan hs s
    refine hf.of_rests hr hk ?_
    rw [hacts, ha]
    exact hf.acts

theorem Synced.bid (h : Synced kaiguan t) (hr : Rests t u) (hcons : t.Conserved) {acts : List Act}
    (hacts : u.play.actList = t.play.actList ++ acts) (hbids : ∀ b ∈ u.play.actList, b.IsBid)
    (hs : Sends Msg.Neutral t u) : Synced kaiguan u where
  toSteady := h.toSteady.rests hr
  idle hidle := absurd hcons (h.waiting (.inl (hr.goesOn.idle hidle)))
  dealing hdeal := absurd hcons (h.waiting (.inr (hr.goesOn.dealing hdeal)))
  follows _ := by
    refine (h.follows hcons).of_lobby hs.cfg hr.seats fun s _ _ hf => ?_
    obtain ⟨hk, ha⟩ := agent_neutral kaiguan hs s
    refine hf.of_rests hr hk (window_of_bids hbids (ha (hf.acts.onlyBids fun b hb => ?_)))
    exact hbids b (hacts ▸ List.mem_append_left _ hb)

theorem Synced.landlord (h : Synced kaiguan t) (hcons : t.Conserved) (hdz : t.dzTaken = false)
    (hcp : ¬ t.AtCp) (d : Nat) (men : Option Nat) : Synced kaiguan (t.setDizhu d men) := by
  have hk := t.keeps_setDizhu d men
  refine h.inHand hcons ⟨hk.cfg, setDizhu_toCtrl t d men, by simp [setDizhu, libSetDizhu],
    hk.laizi, fun _ => ⟨hdz, hk.played⟩⟩ fun s hs hseat hf => ?_
  exact hf.landlord hs hseat hcons hdz (h.unplayed hdz) h.none hcp d men

theorem Synced.look (h : Synced kaiguan t) (hcons : t.Conserved) (p : Nat) :
    Synced kaiguan (t.kanMyPai p) :=
  h.inHand hcons ⟨rfl, rfl, rfl, rfl, fun hdz => ⟨hdz, rfl⟩⟩ fun _ hs _ hf => hf.look hs p

theorem Synced.bottom (h : Synced kaiguan t) (hcons : t.Conserved) (hdz : t.dzTaken = false)
    (hmld : t.cfg.isMld) (hkan : ∀ s ∈ t.cfg.seatList, t.pKanPai s) (shown : Nat → Prop)
    [DecidablePred shown] (hd : shown t.play.dizhu) :
    Synced kaiguan ((t.fapaiDizhu true).sendAll fun s =>
      .mldDizhuPai (if shown s then some t.play.dzPai else none)) := by
  refine h.inHand hcons ⟨rfl, rfl, rfl, rfl, fun _ => ⟨hdz, rfl⟩⟩ fun s hs hseat hf => ?_
  exact hf.bottom hs hseat hcons hdz (h.unplayed hdz) h.none hmld (hkan s hseat) shown hd

theorem Laid.inHand {p : Nat} {a : ChupaiArgs} (h : Laid t u p a) (hdz : t.dzTaken = true) :
    InHand t u := by
  by_cases ha : a.type = 0
  · have hk := h.pass ha
    refine ⟨hk.cfg, h.ctrl, h.lobby, hk.laizi, fun hf => ?_⟩
    rw [hk.dzTaken, hdz] at hf
    cases hf
  · obtain ⟨cp, -, -, -, -, hl, hlz⟩ := h.lays ha
    refine ⟨hl.cfg, h.ctrl, h.lobby, hlz, fun hf => ?_⟩
    rw [hl.dzTaken, hdz] at hf
    cases hf

theorem Synced.lay (h : Synced kaiguan t) (hcons : t.Conserved) (hdz : t.dzTaken = true)
    (hcp : t.AtCp) {p : Nat} {a : ChupaiArgs} (hp : p ∈ t.cfg.seatList)
    (hwf : (PaiType.mk a.type a.keyPai).Wf)
    (hpass : a.type = 0 → isMustChupai t.cfg.gameType t.play.actList = false)
    (hl : Laid t u p a) : Synced kaiguan u := by
  have hu := hl.inHand hdz
  refine h.inHand hcons hu fun s hs _ hf => ?_
  obtain ⟨rate, ho⟩ := hl.sent
  rw [agent_map (m := fun _ => .cp (a.act p) rate) hu.cfg ho hs]
  by_cases ha : a.type = 0
  · exact hf.pass hl hwf (hpass ha) ha
  · exact hf.lays hcons hdz hcp hp (seatNum_agent t s) h.laizi_rank hwf hl ha

theorem Synced.drawn (h : Synced kaiguan t) (hcons : t.Conserved) (hdz : t.dzTaken = true)
    (hlz : t.cfg.gameType = .lz) (rand : Nat) : Synced kaiguan (t.createLz rand) := by
  have hbusy : ¬ ((t.createLz rand).Idle ∨ (t.createLz rand).Dealing) := by
    rintro (⟨hs | hs, -⟩ | hf | ⟨-, hs⟩)
    · cases hs
    · cases hs
    · exact h.waiting (.inr (.inl hf)) hcons
    · cases hs
  refine ⟨⟨?_, fun lz hlz => ?_, fun hn => absurd hlz hn, fun _ _ => rfl, h.unplayed,
    fun hw => absurd hw hbusy, fun hw => absurd hw hbusy, h.pressed⟩,
    fun hw => absurd (.inl hw) hbusy, fun hw => absurd (.inr hw) hbusy, fun _ => ?_⟩
  · rintro s hs
    obtain rfl := Option.some.inj hs
    simp
  · obtain rfl := Option.some.inj hlz
    exact random_mem (fun _ => rand) 0 (show 3 ≤ 15 by omega)
  · exact (h.follows hcons).of_lobby rfl rfl fun s hs _ hf => hf.wild hs hdz rand

/-! ## Between two hands -/

theorem fapai_ctrl (t : Table) (ρ : Nat → Nat) (rand : Nat) :
    (({ t with updating := none }.fapai ρ rand).status = t.status ∧
      ({ t with updating := none }.fapai ρ rand).updating = none ∧
      ({ t with updating := none }.fapai ρ rand).gone = t.gone) ∧
    ({ t with updating := none }.fapai ρ rand).toLobby = t.toLobby ∧
    ({ t with updating := none }.fapai ρ rand).toTrace = t.toTrace ∧
    (({ t with updating := none }.fapai ρ rand).nextStatus = some .mldMen ∨
      ({ t with updating := none }.fapai ρ rand).nextStatus = some .jdz) := by
  unfold fapai
  dsimp only
  split
  · exact ⟨⟨rfl, rfl, rfl⟩, rfl, rfl, .inl rfl⟩
  · exact ⟨⟨rfl, rfl, rfl⟩, rfl, rfl, .inr rfl⟩

theorem Synced.deal (h : Synced kaiguan t) (hfresh : t.Fresh) (hup : t.updating = some .fapai)
    (hidle : ¬ t.Idle) (hstatus : t.status ≠ .cp) (ρ : Nat → Nat) (rand : Nat) :
    Synced kaiguan ({ t with updating := none }.fapai ρ rand) := by
  obtain ⟨hcfg, hlaizi, -, hcp⟩ := fapai_frame t ρ rand
  obtain ⟨hctrl, hlobby, htrace, hnext⟩ := fapai_ctrl t ρ rand
  have hdeal := h.hidden (.inr (.inl hup))
  have hclear := h.dealing (.inl hup)
  have hfollows (s : Nat) (hs : s ∈ t.seats) (hseat : s ∈ t.cfg.seatList) :=
    Follows.deal hfresh h.none hdeal hstatus hs (hclear s hs hseat) ρ rand
  generalize { t with updating := none }.fapai ρ rand = u at *
  have hbusy : ¬ (u.Idle ∨ u.Dealing) := by
    rintro (⟨hs, hgone⟩ | hf | ⟨-, hs⟩)
    · exact hidle ⟨hctrl.1 ▸ hs, hctrl.2.2 ▸ hgone⟩
    · rw [hctrl.2.1] at hf
      cases hf
    · rcases hnext with hn | hn <;> rw [hn] at hs <;> cases hs
  refine ⟨⟨?_, ?_, ?_, fun hu => absurd hu (hcp hstatus), fun _ => ?_,
    fun hw => absurd hw hbusy, fun hw => absurd hw hbusy, ?_⟩,
    fun hw => absurd (.inl hw) hbusy, fun hw => absurd (.inr hw) hbusy, fun _ s hs hseat => ?_⟩
  · intro s hs
    rcases hnext with hn | hn
    · rw [hn] at hs
      obtain rfl := Option.some.inj hs
      simp
    · rw [hn] at hs
      obtain rfl := Option.some.inj hs
      simp
  · rw [hlaizi]
    exact h.rank
  · rw [hcfg, hlaizi]
    exact h.none
  · rw [htrace]
    exact hfresh.2.1
  · rw [hcfg, hlobby]
    exact h.pressed
  · rw [seats, hlobby] at hs
    exact hfollows s hs (hcfg ▸ hseat)

theorem Synced.join (h : Synced kaiguan t) (hidle : t.Idle) (hfresh : t.Fresh) (id : Nat)
    (seat : Option Nat) : Synced kaiguan (t.join id seat).table := by
  unfold Table.join
  split
  · exact h
  · split
    · exact h
    · next p _ =>
      dsimp only [reply]
      let v : Table := { t with
        playersJoinFlag := Function.update t.playersJoinFlag id true
        pSeatNumber := Function.update t.pSeatNumber p (some id)
        pCount := t.pCount + 1 }
      change Synced kaiguan (v.sendAll fun _ => .join p (t.ready p))
      have hold {s : Nat} (hs : s ∈ v.seats) (hne : p ≠ s) : s ∈ t.seats := by
        simpa [v, seats, hne.symm] using hs
      have hagent {s : Nat} (hs : s ∈ v.seats) :
          (v.sendAll fun _ => .join p (t.ready p)).agent kaiguan s =
            (t.agent kaiguan s).receive (.join p (t.ready p)) := by
        rw [agent_sendAll v _ hs]
        rfl
      have hclear {s : Nat} (hs : s ∈ v.seats) :
          p = s → ((t.agent kaiguan s).receive (.join p (t.ready p))).ready.isSome ∧
            ((t.agent kaiguan s).receive (.join p (t.ready p))).Cleared := fun heq => by
        rw [Agent.receive, if_pos (heq.trans (seatNum_agent t s).symm)]
        exact ⟨rfl, rfl, rfl, ⟨rfl, rfl⟩, rfl⟩
      have hsame {s : Nat} (hne : p ≠ s) :
          (t.agent kaiguan s).receive (.join p (t.ready p)) = t.agent kaiguan s := by
        rw [Agent.receive, if_neg fun heq => hne (heq.trans (seatNum_agent t s))]
      have hsteady : Steady (v.sendAll fun _ => .join p (t.ready p)) :=
        h.toSteady.keeps ⟨rfl, rfl, rfl, rfl, rfl, rfl, rfl⟩ rfl (.of_same rfl) h.pressed
      have hnot : ¬ (v.sendAll fun _ => .join p (t.ready p)).Conserved :=
        Keeps.not_conserved ⟨rfl, rfl, rfl, rfl, rfl, rfl, rfl⟩ hfresh
      refine ⟨hsteady, fun _ s hs hseat => ?_, fun hd s hs hseat => ?_, fun hc => absurd hc hnot⟩
      · dsimp only
        rw [hagent hs]
        by_cases heq : p = s
        · exact ⟨(hclear hs heq).1, fun _ => (hclear hs heq).2⟩
        · rw [hsame heq]
          exact h.idle hidle s (hold hs heq) hseat
      · dsimp only
        rw [hagent hs]
        by_cases heq : p = s
        · exact (hclear hs heq).2
        · rw [hsame heq]
          exact h.dealing hd s (hold hs heq) hseat

theorem countP_forget (l : List Nat) (hl : l.Nodup) (f : Nat → Nat) (p : Nat) :
    l.countP (fun s => f s = 1) ≤ l.countP (fun s => Function.update f p 0 s = 1) + 1 := by
  refine (countP_le_add (r := fun s => decide (s = p)) fun s _ hs => ?_).trans
    (Nat.add_le_add_left (List.nodup_iff_count_le_one.mp hl p) _)
  by_cases heq : s = p
  · exact .inr (by simpa using heq)
  · exact .inl (by simpa [heq] using hs)

theorem Synced.exit (h : Synced kaiguan t) (p : Nat) :
    Synced kaiguan (t.playerExitGame p).table := by
  unfold playerExitGame
  dsimp only
  have hrest : Synced kaiguan (t.sendAll fun _ => .playerExit p) :=
    h.rest (.of_same ⟨rfl, rfl, rfl, rfl, rfl, rfl, rfl⟩ rfl rfl rfl rfl) rfl
      (.sendAll fun _ => trivial)
  generalize (t.sendAll fun _ => .playerExit p) = v at hrest
  split
  · exact hrest
  · next id _ =>
    dsimp only [reply]
    let u : Table := { v with
      playersJoinFlag := Function.update v.playersJoinFlag id false
      ready := Function.update v.ready p 0
      pReady := v.pReady - 1
      pSeatNumber := Function.update v.pSeatNumber p none
      pCount := v.pCount - 1 }
    change Synced kaiguan u
    have hkeeps : Keeps v u := ⟨rfl, rfl, rfl, rfl, rfl, rfl, rfl⟩
    have hsub {s : Nat} (hs : s ∈ u.seats) : s ≠ p ∧ s ∈ v.seats := by
      by_cases heq : s = p
      · simp [u, seats, heq] at hs
      · exact ⟨heq, by simpa [u, seats, heq] using hs⟩
    have hpressed : u.pReady ≤ v.cfg.seatList.countP fun s => u.ready s = 1 := by
      have hle := hrest.pressed
      have hforget := countP_forget v.cfg.seatList List.nodup_range' v.ready p
      change v.pReady - 1 ≤ _
      change _ ≤ v.cfg.seatList.countP (fun s => u.ready s = 1) + 1 at hforget
      omega
    refine ⟨hrest.toSteady.keeps hkeeps rfl (.of_same rfl) hpressed, fun hi s hs hseat => ?_,
      fun hd s hs hseat => hrest.dealing hd s (hsub hs).2 hseat, fun hc s hs hseat => ?_⟩
    · obtain ⟨hne, hs⟩ := hsub hs
      have hready : u.ready s = v.ready s := Function.update_of_ne hne ..
      rw [hready]
      exact hrest.idle hi s hs hseat
    · have hf := hrest.follows (hkeeps.symm.conserved hc) s (hsub hs).2 hseat
      exact hf.of_keeps hkeeps rfl rfl .inl (.refl _) hf.acts

theorem Synced.begin (hfresh : t.Fresh) (hrank : ∀ lz ∈ t.laizi, 3 ≤ lz ∧ lz ≤ 15)
    (hnone : t.cfg.gameType ≠ .lz → t.laizi = none) (hkan : t.cfg.isMld → ∀ p, t.pKanPai p = false)
    (hpressed : t.pReady ≤ t.cfg.seatList.countP fun s => t.ready s = 1)
    (hclear : t.AtSeats fun s => (t.agent kaiguan s).Cleared) : Synced kaiguan t.gameBegin := by
  have hnot : ¬ t.gameBegin.Conserved :=
    Keeps.not_conserved ⟨rfl, rfl, rfl, rfl, rfl, rfl, rfl⟩ hfresh
  refine ⟨⟨?_, hrank, hnone, ?_, fun _ => hfresh.2.1, fun _ => hnot, fun _ => hkan, hpressed⟩,
    ?_, fun _ => ?_, fun hc => absurd hc hnot⟩
  · intro s hs
    obtain rfl := Option.some.inj hs
    simp
  · rintro (hs | ⟨-, hs⟩) <;> cases hs
  · rintro ⟨hs | hs, -⟩ <;> cases hs
  · refine hclear.of_lobby rfl rfl fun s hs _ hc => ?_
    have hagent : t.gameBegin.agent kaiguan s =
        (t.agent kaiguan s).receive (.begin t.curRace) :=
      agent_map (m := fun _ => .begin t.curRace) rfl rfl hs
    rw [hagent]
    exact ⟨hc.paiData, hc.dizhu, hc.laizi, hc.actList⟩

theorem Synced.ready (h : Synced kaiguan t) (hidle : t.Idle) (hfresh : t.Fresh) {p : Nat}
    (hp : p ∈ t.cfg.seatList) : Synced kaiguan (t.readyCmd p).table := by
  unfold readyCmd
  split
  · next hzero =>
    dsimp only
    let v : Table := { ({ t with ready := Function.update t.ready p 1 }).sendAll
      fun _ => .readyMsg p with pReady := t.pReady + 1 }
    have hagent {s : Nat} (hs : s ∈ t.seats) :
        v.agent kaiguan s = (t.agent kaiguan s).receive (.readyMsg p) :=
      agent_map (m := fun _ => .readyMsg p) rfl rfl hs
    have hpressed : v.pReady ≤ t.cfg.seatList.countP fun s => v.ready s = 1 := by
      have hcount := countP_update (l := t.cfg.seatList) List.nodup_range' hp
        (fun r : Nat => decide (r = 1)) t.ready 1
      have hle := h.pressed
      change t.pReady + 1 ≤ (t.cfg.seatList.countP fun s => Function.update t.ready p 1 s = 1 : Nat)
      simp only [hzero] at hcount
      simp at hcount
      omega
    have hready : v.AtSeats fun s => (v.agent kaiguan s).ready.isSome ∧
        (v.ready s = 1 → (v.agent kaiguan s).Cleared) := by
      refine (h.idle hidle).of_lobby rfl rfl fun s hs _ ⟨hsome, hclear⟩ => ?_
      rw [hagent hs, Agent.receive]
      by_cases heq : p = s
      · rw [if_neg (by simp [heq, seatNum_agent, Option.isSome_iff_ne_none.mp hsome])]
        exact ⟨rfl, fun _ => ⟨rfl, rfl, ⟨rfl, rfl⟩, rfl⟩⟩
      · rw [if_pos (.inr (by rw [seatNum_agent]; exact heq))]
        refine ⟨hsome, fun hone => hclear ?_⟩
        rwa [show v.ready s = t.ready s from Function.update_of_ne (Ne.symm heq) ..] at hone
    have hv : Synced kaiguan v := by
      have hnot : ¬ v.Conserved :=
        Keeps.not_conserved ⟨rfl, rfl, rfl, rfl, rfl, rfl, rfl⟩ hfresh
      refine ⟨h.toSteady.keeps ⟨rfl, rfl, rfl, rfl, rfl, rfl, rfl⟩ rfl (.of_same rfl) hpressed,
        fun _ => hready, fun hd => ?_, fun hc => absurd hc hnot⟩
      refine (h.dealing hd).of_lobby rfl rfl fun s hs _ hclear => ?_
      rw [hagent hs, Agent.receive]
      split
      · exact hclear
      · exact ⟨rfl, rfl, ⟨rfl, rfl⟩, rfl⟩
    change Synced kaiguan (if v.pReady = v.cfg.seatCount then v.gameBegin.reply 0
      else v.reply 0).table
    split
    · next hall =>
      have hone : ∀ s ∈ t.cfg.seatList, v.ready s = 1 := by
        have hlen : t.cfg.seatList.length = t.cfg.seatCount := List.length_range'
        have hle := List.countP_le_length (p := fun s => decide (v.ready s = 1))
          (l := t.cfg.seatList)
        have heq : t.cfg.seatList.countP (fun s => v.ready s = 1) = t.cfg.seatList.length := by
          change v.pReady = (t.cfg.seatCount : Int) at hall
          omega
        intro s hs
        exact of_decide_eq_true (List.countP_eq_length.mp heq s hs)
      refine Synced.begin hfresh h.rank h.none (h.hidden (.inl hidle)) hpressed ?_
      exact fun s hs hseat => (hready s hs hseat).2 (hone s hseat)
    · exact hv
  · exact h

theorem Synced.again (h : Synced kaiguan t) :
    Synced kaiguan ((t.sendAll fun _ => .startAgain).newGame true) := by
  let v : Table := { t.sendAll fun _ => .startAgain with reFapaiNum := t.reFapaiNum + 1 }
  change Synced kaiguan v.resetHand.gameBegin
  refine Synced.begin ⟨rfl, rfl, rfl⟩ h.rank h.none (fun hmld p => ?_) ?_ ?_
  · change (if t.cfg.isMld then false else t.pKanPai p) = false
    exact if_pos hmld
  · exact Int.natCast_nonneg _
  · intro s hs hseat
    have hagent : v.resetHand.agent kaiguan s = (t.agent kaiguan s).receive .startAgain :=
      agent_map (m := fun _ => .startAgain) rfl rfl hs
    rw [hagent]
    exact ⟨rfl, rfl, ⟨rfl, rfl⟩, rfl⟩

theorem newGame_status (t : Table) :
    ((t.newGame false).status = .waitP ∨ (t.newGame false).status = .ready) ∧
      (t.newGame false).time = false := by
  refine ⟨?_, rfl⟩
  change (if t.curRace + 1 = 1 then Status.waitP else .ready) = .waitP ∨
    (if t.curRace + 1 = 1 then Status.waitP else .ready) = .ready
  split
  · exact .inl rfl
  · exact .inr rfl

theorem Synced.next (h : Synced kaiguan t) (hup : t.updating = none) (isChuntian : Nat) :
    Synced kaiguan ((t.sendAll fun _ => .settlement isChuntian false).newGame false) := by
  obtain ⟨hstatus, htime⟩ := newGame_status (t.sendAll fun _ => .settlement isChuntian false)
  set u := (t.sendAll fun _ => .settlement isChuntian false).newGame false with hu
  have hfresh : u.Fresh := ⟨rfl, rfl, rfl⟩
  have hnot : ¬ u.Dealing := by
    rintro (hs | ⟨hs, -⟩)
    · rw [show u.updating = t.updating from rfl, hup] at hs
      cases hs
    · rw [htime] at hs
      cases hs
  refine ⟨⟨h.onward, h.rank, h.none, ?_, fun _ => rfl, fun _ => hfresh.not_conserved,
    fun _ hmld p => ?_, Int.natCast_nonneg _⟩, fun _ s hs hseat => ?_, fun hd => absurd hd hnot,
    fun hc => absurd hc hfresh.not_conserved⟩
  · rintro (hs | ⟨hs, -⟩)
    · rcases hstatus with h | h <;> rw [h] at hs <;> cases hs
    · rw [htime] at hs
      cases hs
  · change (if t.cfg.isMld then false else t.pKanPai p) = false
    exact if_pos hmld
  · have hagent : u.agent kaiguan s =
        (t.agent kaiguan s).receive (.settlement isChuntian false) :=
      agent_map (m := fun _ => .settlement isChuntian false) rfl rfl hs
    dsimp only
    rw [hagent]
    exact ⟨rfl, fun hone => absurd hone Nat.zero_ne_one⟩

theorem Synced.move (h : Synced kaiguan t) (hm : Move t u) : Synced kaiguan u := by
  cases hm with
  | rest hr hacts hs => exact h.rest hr hacts hs
  | bid _ hr hcons hacts hbids hs => exact h.bid hr hcons hacts hbids hs
  | join id seat hidle hfresh => exact h.join hidle hfresh id seat
  | exit seat => exact h.exit seat
  | ready hidle hfresh hp => exact h.ready hidle hfresh hp
  | deal ρ rand hfresh hup hidle hstatus => exact h.deal hfresh hup hidle hstatus ρ rand
  | landlord men hcons hdz hcp _ => exact h.landlord hcons hdz hcp _ men
  | look seat hcons _ => exact h.look hcons seat
  | bottom shown hcons hdz hmld _ hkan hd => exact h.bottom hcons hdz hmld hkan shown hd
  | wild rand hcons hdz hlz _ => exact h.drawn hcons hdz hlz rand
  | lay hcons hdz hcp hp hwf hpass hl => exact h.lay hcons hdz hcp hp hwf hpass hl
  | again _ => exact h.again
  | next isChuntian _ hup => exact h.next hup isChuntian

theorem Synced.moves (h : Synced kaiguan t) (hm : MoveChain t u) : Synced kaiguan u := by
  induction hm with
  | refl => exact h
  | tail _ hmove ih => exact ih.move hmove

end Synced

end Table

end JyQipai.Ddz
