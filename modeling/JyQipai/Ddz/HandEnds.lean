import JyQipai.Ddz.Decided
import JyQipai.Ddz.Played

/-!
# Every hand ends

An agent whose player does nothing always finds a play that the room accepts, and only so many
plays can be accepted until the hand is over.
-/

namespace JyQipai.Ddz

open JyQipai.Lib
open Table (ChupaiArgs)

section Order

variable {kaiguan : Nat → Bool} {hand : Finset Nat} {phash : Nat → Nat}

theorem orderLoop_isSome {ranks : List Nat} {acc : Option (Nat × Nat)} (h : acc.isSome) :
    (orderLoop kaiguan hand phash ranks acc).isSome := by
  induction ranks generalizing acc with
  | nil => exact h
  | cons r ranks ih =>
      rw [orderLoop]
      split
      · rfl
      · split
        · apply ih
          split <;> simp [h]
        · split
          · apply ih
            split <;> simp [h]
          · split
            · apply ih
              split <;> simp [h]
            · exact ih h

theorem orderLoop_of_mem {ranks : List Nat} {acc : Option (Nat × Nat)} {r : Nat} (hr : r ∈ ranks)
    (h1 : 1 ≤ phash r) (h4 : phash r ≤ 4) :
    (orderLoop kaiguan hand phash ranks acc).isSome := by
  induction ranks generalizing acc with
  | nil => cases hr
  | cons s ranks ih =>
      have hnew (n : Nat) (a : Nat × Nat) :
          (if acc.all (fun b => n < b.1) then some a else acc).isSome := by
        cases acc with
        | none => rfl
        | some b => split <;> rfl
      rw [orderLoop]
      rcases List.mem_cons.mp hr with rfl | hr
      · split
        · rfl
        · split
          · exact orderLoop_isSome (hnew 2 _)
          · split
            · exact orderLoop_isSome (hnew 3 _)
            · split
              · apply orderLoop_isSome
                cases acc <;> simp
              · omega
      · split
        · rfl
        · split
          · exact ih hr
          · split
            · exact ih hr
            · split <;> exact ih hr

theorem getPaiTypeHash_le (hand : Finset Nat) {r : Nat} (hr : r ∈ paiRanks) :
    getPaiTypeHash hand r ≤ 4 := by
  rw [← length_filter_idsOfType hand hr]
  refine (List.length_filter_le _ _).trans ?_
  have hall : ∀ r ∈ paiRanks, (idsOfType r).length ≤ 4 := by decide
  exact hall r hr

theorem autoChooseByOrder_isSome {laizi : Option Nat}
    (hhand : ∀ id ∈ hand, 1 ≤ id ∧ id ≤ 54) (hne : hand.Nonempty) :
    (autoChooseByOrder kaiguan hand (paiTypeMapOf hand (laizi.getD 0))
      (laizi.elim 0 fun lz => getPaiTypeHash hand lz) (laizi.getD 0)).isSome := by
  obtain ⟨id, hid⟩ := hne
  have hrank := paiMap_mem_paiRanks (hhand id hid).1 (hhand id hid).2
  have hpos : 1 ≤ getPaiTypeHash hand (paiMap id) :=
    Finset.card_pos.mpr ⟨id, Finset.mem_filter.mpr ⟨hid, rfl⟩⟩
  unfold autoChooseByOrder
  split
  · rfl
  · next hnone =>
    by_cases hlz : laizi = some (paiMap id)
    · rw [hlz]
      exact (congrArg Option.isSome (if_pos hpos)).trans rfl
    · exfalso
      have hne : paiMap id ≠ laizi.getD 0 := by
        intro heq
        cases laizi with
        | some lz => exact hlz (congrArg some heq.symm)
        | none =>
            have := (mem_paiRanks.mp hrank).1
            simp only [Option.getD_none] at heq
            omega
      have hcount :
          paiTypeMapOf hand (laizi.getD 0) (paiMap id) = getPaiTypeHash hand (paiMap id) :=
        Function.update_of_ne hne ..
      have hsome : (orderLoop kaiguan hand (paiTypeMapOf hand (laizi.getD 0)) paiRanks
          none).isSome :=
        orderLoop_of_mem hrank (hcount ▸ hpos) (hcount ▸ getPaiTypeHash_le hand hrank)
      rw [hnone] at hsome
      cases hsome

end Order

namespace Table

variable {kaiguan : Nat → Bool} {F : NumFormat} {cfg : Config} {t u : Table} {s : Nat}
  {args : ChupaiArgs}

theorem Follows.autoCp_isSome {a : Agent} (h : Follows t s a) (hcons : t.Conserved)
    (hdz : t.dzTaken = true) (hcp : t.AtCp) (hseat : s ∈ t.cfg.seatList)
    (hgame : a.gameType = t.cfg.gameType) (hne : (t.play.pai s).Nonempty) (hosted : Bool) :
    (a.autoCp (isMustChupai t.cfg.gameType t.play.actList) hosted).isSome := by
  have hdata := h.paiData (h.seen hdz)
  obtain ⟨hlz, hnum⟩ := h.laizi (.inl hcp)
  unfold Agent.autoCp
  dsimp only
  split
  · rw [hdata, Option.bind_some, hnum, hlz, toNat_wildcards, Option.isSome_map]
    exact autoChooseByOrder_isSome (hand_range hcons hseat) hne
  · next hmust =>
    rw [Bool.not_eq_true] at hmust
    split
    · obtain ⟨pos, act, hpos, hact, -, -, hne⟩ := h.toBeat hmust
      rw [hgame, hpos, Option.bind_some, hact, Option.bind_some, hdata, Option.bind_some,
        Option.isSome_map]
      simp only [cpHint, autoChooseByType, if_neg hne]
      split
      · rfl
      · split
        · rfl
        · split <;> rfl
    · rfl

theorem libChupai_result (hplay : t.Playable s args) :
    (checkChupaiSafe t.cfg.gameType t.play.actList args.type args.keyPai ≠ some true ∧
        (t.libChupai s args).table = t ∧
        ((t.libChupai s args).result = none ∨ (t.libChupai s args).result = some 1003)) ∨
      checkChupaiSafe t.cfg.gameType t.play.actList args.type args.keyPai = some true ∧
        ((t.libChupai s args).result = some 1 ∨ (t.libChupai s args).result = some 0 ∧
          (args.type ≠ 0 → (t.libChupai s args).table.play.remainPai s ≠ 0)) := by
  unfold libChupai
  cases hcheck : checkChupaiSafe t.cfg.gameType t.play.actList args.type args.keyPai with
  | none => exact .inl ⟨by simp, rfl, .inl rfl⟩
  | some b =>
      cases b with
      | false => exact .inl ⟨by simp, rfl, .inr rfl⟩
      | true =>
          refine .inr ⟨rfl, ?_⟩
          dsimp only
          split
          · next htype => exact .inr ⟨rfl, fun hne => absurd htype hne⟩
          · next htype =>
            obtain ⟨cp, hcp, hfrom, -⟩ := hplay htype
            have hok := (deduct_spec (t := t.addAct (args.act s)) hcp hfrom).1
            generalize (t.addAct (args.act s)).deduct s args = q at hok
            obtain ⟨u, ok⟩ := q
            dsimp only at hok
            subst hok
            dsimp only
            split
            · exact .inl rfl
            · next hout =>
              refine .inr ⟨rfl, fun _ => ?_⟩
              intro hzero
              apply hout
              simp only [reply_table, guo_play] at hzero
              rw [isOut, hzero]
              split
              · simp
              · rfl

/-- Whatever a player does or leaves undone, the agent of a seat that has cards left finds a play
when its time is over, the room accepts it, and the hand goes on with it. -/
theorem auto_accepted (h : Played kaiguan F cfg t) (hstatus : t.status = .cp)
    (hturn : t.play.curP = s) (hs : s ∈ t.seats) (hseat : s ∈ t.cfg.seatList)
    (hne : (t.play.pai s).Nonempty) (hosted : Bool) :
    ∃ args, (t.agent kaiguan s).autoCp (isMustChupai t.cfg.gameType t.play.actList) hosted =
        some args ∧
      (t.chupai s args).result = some 0 ∧ Played kaiguan F cfg (t.step F (.chupai s args)) := by
  obtain ⟨-, hcards, hsync⟩ := h.synced
  have hst := hcards.status
  rw [hstatus] at hst
  have hcp : t.AtCp := .inl hstatus
  have hf := hsync.follows hst.1 s hs hseat
  have hgame : (t.agent kaiguan s).gameType = t.cfg.gameType := gameType_agent t s
  have hsome := hf.autoCp_isSome hst.1 hst.2 hcp hseat hgame hne hosted
  obtain ⟨args, hargs⟩ := Option.isSome_iff_exists.mp hsome
  have hauto := hf.auto hsync.toSteady hst.1 hst.2 hcp hseat hgame hargs
  refine ⟨args, hargs, ?_, h.auto ⟨hseat, hauto.wf⟩ hs hosted hargs hauto.noEmpty⟩
  rcases chupai_cases ⟨hstatus, hturn⟩ ⟨hauto.playable, hauto.counts⟩ with
    ⟨-, -, hres⟩ | ⟨-, -, -, -, hres, -⟩
  · rcases libChupai_result hauto.playable with ⟨hcheck, -⟩ | ⟨-, hok⟩
    · exact absurd hauto.allowed hcheck
    · rcases hok with hok | ⟨hok, -⟩ <;> rw [hok] at hres <;> simp at hres
  · exact hres

theorem auto_accepted_lead :
    ∃ args, ((after {} leadTurn).agent kaiguanNor 1).autoCp true false = some args ∧
      ((after {} leadTurn).chupai 1 args).result = some 0 := by
  have hmust : isMustChupai .nor (after {} leadTurn).play.actList = true := by decide +kernel
  obtain ⟨args, hargs, hres, -⟩ := auto_accepted played_leadTurn (s := 1) (by decide +kernel)
    (by decide +kernel) (by decide +kernel) (by decide +kernel) (by decide +kernel) false
  exact ⟨args, hmust ▸ hargs, hres⟩

/-! ## The measure -/

def cardsLeft (t : Table) : Nat := (t.cfg.seatList.map fun p => (t.play.pai p).card).sum

def passes (l : List Act) : Nat := (l.reverse.takeWhile fun a => a.type = 0).length

theorem passes_append (l : List Act) (a : Act) :
    passes (l ++ [a]) = if a.type = 0 then passes l + 1 else 0 := by
  unfold passes
  rw [List.reverse_append, List.reverse_singleton, List.singleton_append, List.takeWhile_cons]
  by_cases h : a.type = 0 <;> simp [h]

theorem passes_lt {g : GameType} {l : List Act} (h : isMustChupai g l = false) :
    passes l + 1 < g.seatCount := by
  unfold passes
  rcases hl : l.reverse with _ | ⟨last, _ | ⟨prev, rest⟩⟩
  · simp [isMustChupai, hl] at h
  · rw [List.takeWhile_cons]
    cases g <;> simp [isMustChupai, hl] at h <;> split <;> simp_all [GameType.seatCount]
  · rw [List.takeWhile_cons, List.takeWhile_cons]
    cases g <;> simp [isMustChupai, hl] at h <;> split <;> simp_all [GameType.seatCount]

def playsLeft (t : Table) : Nat :=
  t.cfg.seatCount * t.cardsLeft - min (passes t.play.actList) (t.cfg.seatCount - 1)

/-! ## Steps of a hand -/

def Accepts (t : Table) : Event → Prop
  | .chupai seat a => t.gone = false ∧ t.status = .cp ∧ t.play.curP = seat ∧
      checkChupaiSafe t.cfg.gameType t.play.actList a.type a.keyPai = some true
  | _ => False

instance (t : Table) : ∀ e, Decidable (t.Accepts e) := by
  rintro (_ | _) <;> unfold Accepts <;> infer_instance

theorem chupai_refused_check (hcheck : checkChupaiSafe t.cfg.gameType t.play.actList args.type
    args.keyPai ≠ some true) : (t.chupai s args).table = t := by
  unfold chupai
  split
  · rfl
  · unfold libChupai
    cases hres : checkChupaiSafe t.cfg.gameType t.play.actList args.type args.keyPai with
    | none => rfl
    | some b =>
        cases b with
        | false => rfl
        | true => exact absurd hres hcheck

theorem breakGame_play (t : Table) : t.breakGame.table.cfg = t.cfg ∧
    t.breakGame.table.play = t.play := by
  unfold breakGame
  split
  · exact ⟨rfl, rfl⟩
  · dsimp only
    split
    · exact ⟨rfl, rfl⟩
    · split
      · have hs := settles_settlement { t with isBreakGame := true } 0
        exact ⟨hs.cfg, hs.play⟩
      · exact ⟨rfl, rfl⟩

theorem cancelGame_play (t : Table) : t.cancelGame.table.cfg = t.cfg ∧
    t.cancelGame.table.play = t.play := by
  unfold cancelGame
  split <;> exact ⟨rfl, rfl⟩

theorem update_play (hi : t.Inv) (hcp : t.AtCp) (rand : Nat) :
    (t.update rand).cfg = t.cfg ∧ (t.update rand).play = t.play := by
  unfold update
  split
  · next htime =>
    have hnext : t.nextStatus = some .cp := by
      rcases hcp with hs | hs
      · obtain ⟨ht, -⟩ := hi.quiet (by simp [hs]) (by simp [hs]) (by simp [hs])
        rw [ht] at htime
        cases htime.1
      · exact hs.2
    dsimp only
    rw [hnext]
    exact ⟨rfl, rfl⟩
  · exact ⟨rfl, rfl⟩

theorem not_atCp_settlementFinish (hs : t.status ≠ .cp)
    (answer : Nat → Int → Int) :
    ¬ (settlementFinish F { t with updating := none } answer).AtCp := by
  unfold settlementFinish nextGame
  dsimp only
  split
  · generalize sendAll _ _ = u
    obtain ⟨hstatus, htime⟩ := newGame_status u
    rintro (h | ⟨h, -⟩)
    · rcases hstatus with hst | hst <;> rw [hst] at h <;> cases h
    · rw [htime] at h
      cases h
  · rintro (h | ⟨-, h⟩)
    · apply hs
      simpa using h
    · cases h

theorem step_waits (hi : t.Inv) (hcp : t.AtCp) {e : Event} (he : t.Legal e)
    (hno : ¬ t.Accepts e) (hu : (t.step F e).AtCp) :
    (t.step F e).cfg = t.cfg ∧ (t.step F e).play = t.play := by
  have hstatus : t.status = .cp ∨ t.status = .wait ∨ t.status = .fp ∨ t.status = .settlement := by
    rcases hcp with hs | ⟨ht, -⟩
    · exact .inl hs
    · exact .inr (hi.timer ht)
  have hne (st : Status) (hst : st ∉ [Status.cp, .wait, .fp, .settlement]) : t.status ≠ st := by
    rintro rfl
    rcases hstatus with h | h | h | h <;> simp [h] at hst
  unfold step at hu ⊢
  split
  · exact ⟨rfl, rfl⟩
  · next hgone =>
    rw [if_neg hgone] at hu
    cases e with
    | join id seat =>
        rw [handle, Table.join, if_pos (.inr (.inl (hne .waitP (by simp))))]
        exact ⟨rfl, rfl⟩
    | playerExitGame seat =>
        simp only [handle, playerExitGame]
        split <;> exact ⟨rfl, rfl⟩
    | ready seat =>
        rcases he.2 with h | h
        · exact absurd h (hne .waitP (by simp))
        · exact absurd h (hne .ready (by simp))
    | jiaoDizhu seat rate =>
        rw [handle, Table.jiaoDizhu, if_pos (hne .jdz (by simp))]
        exact ⟨rfl, rfl⟩
    | jiabei seat rate =>
        rw [handle, Table.jiabei, if_pos (.inl (hne .jiabei (by simp)))]
        exact ⟨rfl, rfl⟩
    | men seat opt =>
        rw [handle, Table.men, if_pos (.inl (hne .mldMen (by simp)))]
        exact ⟨rfl, rfl⟩
    | zhuaPai seat opt =>
        rw [handle, Table.zhuaPai, if_pos (.inl (hne .mldMen (by simp)))]
        exact ⟨rfl, rfl⟩
    | daoLa seat opt =>
        rw [handle, Table.daoLa, if_pos (hne .mldJb (by simp))]
        exact ⟨rfl, rfl⟩
    | erQiangDizhu seat rate =>
        rw [handle, Table.erQiangDizhu, if_pos (hne .erQiangdizhu (by simp))]
        exact ⟨rfl, rfl⟩
    | chupai seat args =>
        have hsame : (t.chupai seat args).table = t := by
          by_cases hturn : t.status = .cp ∧ t.play.curP = seat
          · refine chupai_refused_check fun hcheck => hno ?_
            exact ⟨by simpa using hgone, hturn.1, hturn.2, hcheck⟩
          · exact chupai_elsewhere hturn
        rw [handle, hsame]
        exact ⟨rfl, rfl⟩
    | auto seat type => exact ⟨rfl, rfl⟩
    | cancelGame => exact t.cancelGame_play
    | breakGame => exact t.breakGame_play
    | overTimeCancelGame =>
        simp only [handle, Table.overTimeCancelGame]
        split
        · exact t.cancelGame_play
        · exact t.breakGame_play
    | update rand => exact update_play hi hcp rand
    | fapaiAnswer ρ rand =>
        simp only [handle] at hu ⊢
        split
        · next hup =>
          rw [if_pos hup] at hu
          obtain ⟨⟨hst, -⟩, -, -, hnext⟩ := fapai_ctrl t ρ rand
          exfalso
          rcases hu with h | ⟨-, h⟩
          · obtain ⟨-, hs | hs⟩ := hi.dealing hup <;>
              exact absurd (hst.symm.trans h) (by rw [hs]; decide)
          · rcases hnext with hn | hn <;> exact absurd (hn.symm.trans h) (by decide)
        · exact ⟨rfl, rfl⟩
    | capAnswer call answer =>
        simp only [handle]
        split
        · have hs := settles_resumeSettlement { t with pending := t.pending.erase call } answer call
          exact ⟨hs.cfg, hs.play⟩
        · exact ⟨rfl, rfl⟩
    | scoreAnswer answer =>
        simp only [handle] at hu ⊢
        split
        · next hup =>
          rw [if_pos hup] at hu
          refine absurd hu (not_atCp_settlementFinish ?_ answer)
          rcases hi.paying hup with hs | hs <;> rw [hs] <;> decide
        · exact ⟨rfl, rfl⟩

/-! ## Runs of a hand -/

theorem cardsLeft_lays {cards : Finset Nat} (hl : Lays t u s cards) (hs : s ∈ t.cfg.seatList)
    (hsub : cards ⊆ t.play.pai s) : u.cardsLeft + cards.card = t.cardsLeft := by
  have hsum := sum_map_update (l := t.cfg.seatList) List.nodup_range' hs
    (fun p => (t.play.pai p).card) (t.play.pai s \ cards).card
  have hle := Finset.card_le_card hsub
  have hcard := Finset.card_sdiff_of_subset hsub
  have hmap : (u.cfg.seatList.map fun p => (u.play.pai p).card) =
      t.cfg.seatList.map (Function.update (fun p => (t.play.pai p).card) s
        (t.play.pai s \ cards).card) := by
    rw [hl.cfg, hl.pai]
    refine List.map_congr_left fun p _ => ?_
    rw [Function.update_apply, Function.update_apply]
    split <;> rfl
  rw [cardsLeft, cardsLeft, hmap]
  omega

theorem card_le_cardsLeft (hs : s ∈ t.cfg.seatList) : (t.play.pai s).card ≤ t.cardsLeft :=
  List.single_le_sum (fun _ _ => Nat.zero_le _) _
    (List.mem_map_of_mem (f := fun p => (t.play.pai p).card) hs)

structure Advances (t u : Table) : Prop where
  cfg : u.cfg = t.cfg
  pass : (u.cardsLeft = t.cardsLeft ∧ passes u.play.actList = passes t.play.actList + 1 ∧
      passes t.play.actList + 1 < t.cfg.seatCount) ∨
    (u.cardsLeft < t.cardsLeft ∧ 0 < u.cardsLeft ∧ passes u.play.actList = 0)

theorem advances_chupai (hcards : t.Conserved ∧ t.dzTaken = true) (hs : s ∈ t.cfg.seatList)
    (hturn : t.status = .cp ∧ t.play.curP = s) (hfit : t.FitPlay s args)
    (hcheck : checkChupaiSafe t.cfg.gameType t.play.actList args.type args.keyPai = some true)
    (hgoes : (t.libChupai s args).result ≠ some 1) : Advances t (t.chupai s args).table := by
  obtain ⟨hres, hleft⟩ : (t.libChupai s args).result = some 0 ∧
      (args.type ≠ 0 → (t.libChupai s args).table.play.remainPai s ≠ 0) := by
    rcases libChupai_result hfit.playable with ⟨hno, -⟩ | ⟨-, hone | hzero⟩
    · exact absurd hcheck hno
    · exact absurd hone hgoes
    · exact hzero
  rcases chupai_cases hturn ⟨hfit.playable, hfit.counts⟩ with
    ⟨-, -, hnone | hnone⟩ | ⟨v, hlaid, hpass, hplay, -, ⟨hone, -⟩ | ⟨-, htable⟩⟩
  · rw [hres] at hnone
    cases hnone
  · rw [hres] at hnone
    cases hnone
  · exact absurd hone hgoes
  rw [htable]
  have hacts : (v.wait .cp).play.actList = t.play.actList ++ [args.act s] := hlaid.acts
  by_cases htype : args.type = 0
  · have hk := hlaid.pass htype
    refine ⟨hk.cfg, .inl ⟨?_, ?_, passes_lt (hpass htype)⟩⟩
    · change (v.cfg.seatList.map fun p => (v.play.pai p).card).sum = _
      rw [hk.cfg, hk.pai]
      rfl
    · rw [hacts, passes_append]
      exact if_pos htype
  · obtain ⟨cp, hcp, hfrom, hlen, -, hl, -⟩ := hlaid.lays htype
    have hsub := CpList.cards_subset hfrom
    have hsum := cardsLeft_lays hl hs hsub
    have hcard := CpList.card_cards hfrom
    have hpos : 0 < (cp.cards (t.play.pai s) t.laizi).card := by
      rw [hcard, ← hlen]
      exact List.length_pos_iff.mpr (hfit.real htype)
    have hcons := hl.conserved hcards.1 hcards.2 hs hsub
    have hmem : s ∈ v.cfg.seatList := hl.cfg ▸ hs
    refine ⟨hl.cfg, .inr ⟨?_, ?_, ?_⟩⟩
    · change v.cardsLeft < _
      omega
    · change 0 < v.cardsLeft
      have hne := hleft htype
      rw [← hplay, hcons.remain s hmem] at hne
      have hle := card_le_cardsLeft (t := v) hmem
      omega
    · rw [hacts, passes_append]
      exact if_neg htype

def plays (F : NumFormat) : Table → List Event → Nat
  | _, [] => 0
  | t, e :: es => (if t.Accepts e then 1 else 0) + plays F (t.step F e) es

def GoesOnWith (kaiguan : Nat → Bool) (F : NumFormat) (t : Table) (e : Event) : Prop :=
  (t.Legal e ∧ t.Validated kaiguan e) ∧ (∀ seat a, e = .chupai seat a → ¬ t.Wins seat a) ∧
    (t.step F e).AtCp

theorem playsLeft_step (h : Played kaiguan F cfg t) (hcp : t.AtCp) (hleft : 0 < t.cardsLeft)
    {e : Event} (he : GoesOnWith kaiguan F t e) :
    0 < (t.step F e).cardsLeft ∧
      (if t.Accepts e then 1 else 0) + (t.step F e).playsLeft ≤ t.playsLeft := by
  obtain ⟨hi, hcards, hsync⟩ := h.synced
  obtain ⟨⟨hlegal, hvalid⟩, hwins, hnext⟩ := he
  split
  · next hacc =>
    cases e with
    | chupai seat args =>
        obtain ⟨hgone, hstatus, hturn, hcheck⟩ := hacc
        obtain ⟨hs, ho, hempty⟩ := hvalid hstatus hturn
        have hst := hcards.status
        rw [hstatus] at hst
        have hfit := hsync.fitPlay hcards hstatus hlegal.1 hs ho hempty
        have hgoes : (t.libChupai seat args).result ≠ some 1 := fun hone =>
          hwins seat args rfl ⟨hgone, ⟨hstatus, hturn⟩, hone⟩
        have hadv := advances_chupai hst hlegal.1 ⟨hstatus, hturn⟩ hfit hcheck hgoes
        have hstep : t.step F (.chupai seat args) = (t.chupai seat args).table := by
          rw [step, if_neg (by simp [hgone])]
          rfl
        rw [hstep]
        have hpos := seatCount_pos t.cfg
        obtain ⟨hcfg, ⟨hcount, hpasses, hlt⟩ | ⟨hcount, hsome, hpasses⟩⟩ := hadv
        · rw [playsLeft, playsLeft, hcfg, hcount, hpasses]
          refine ⟨hleft, ?_⟩
          have hmul := Nat.le_mul_of_pos_right t.cfg.seatCount hleft
          omega
        · rw [playsLeft, playsLeft, hcfg, hpasses]
          refine ⟨hsome, ?_⟩
          have hmul := Nat.mul_le_mul_left t.cfg.seatCount (Nat.succ_le_of_lt hcount)
          rw [Nat.mul_succ] at hmul
          omega
    | _ => exact hacc.elim
  · next hacc =>
    obtain ⟨hcfg, hplay⟩ := step_waits hi hcp hlegal hacc hnext
    have hsame : (t.step F e).cardsLeft = t.cardsLeft := by rw [cardsLeft, cardsLeft, hcfg, hplay]
    refine ⟨hsame ▸ hleft, ?_⟩
    rw [playsLeft, playsLeft, hsame, hcfg, hplay, Nat.zero_add]

theorem plays_le (h : Played kaiguan F cfg t) (hcp : t.AtCp) (hleft : 0 < t.cardsLeft)
    {es : List Event} (hes : Allowed (Table.step F) (GoesOnWith kaiguan F) t es) :
    plays F t es ≤ t.playsLeft := by
  induction es generalizing t with
  | nil => exact Nat.zero_le _
  | cons e es ih =>
      obtain ⟨he, hes⟩ := hes
      obtain ⟨hnext, hle⟩ := playsLeft_step h hcp hleft he
      have hrest := ih (.tail h he.1) he.2.2 hnext hes
      rw [plays]
      omega

/-- Every hand ends: from a table at which cards are played, the room accepts at most as many plays
and passes as there are seats times cards left, whatever else happens, before one of them ends the
hand or the hand is broken off. -/
theorem hand_ends (h : Played kaiguan F cfg t) (hcp : t.AtCp) (hleft : 0 < t.cardsLeft)
    {es : List Event} (hes : Allowed (Table.step F) (GoesOnWith kaiguan F) t es) :
    plays F t es ≤ t.cfg.seatCount * t.cardsLeft :=
  (plays_le h hcp hleft hes).trans (Nat.sub_le _ _)

theorem goesOnWith_auto {s : Nat} {args : ChupaiArgs} (hosted : Bool)
    (hlegal : t.Legal (.chupai s args)) (hs : s ∈ t.seats)
    (ho : (t.agent kaiguan s).autoCp (isMustChupai t.cfg.gameType t.play.actList) hosted =
      some args) (hlz : ∀ cp ∈ args.cpList, cp.lz = none)
    (hgoes : (t.libChupai s args).result ≠ some 1) (hnext : (t.step F (.chupai s args)).AtCp) :
    GoesOnWith kaiguan F t (.chupai s args) := by
  refine ⟨⟨hlegal, fun _ _ => ⟨hs, .inr ⟨hosted, ho⟩, fun _ _ => hlz⟩⟩, ?_, hnext⟩
  rintro seat a heq ⟨-, -, hres⟩
  obtain ⟨rfl, rfl⟩ := Event.chupai.inj heq
  exact hgoes hres

instance (t : Table) : Decidable t.AtCp := inferInstanceAs (Decidable (_ ∨ _))

def passPlay : ChupaiArgs := { type := 0, keyPai := [], cpList := none, mergeCpList := [] }

def hostedPlay : ChupaiArgs :=
  { type := 1, keyPai := [11], cpList := some { nor := some [33] }, mergeCpList := [33] }

def aroundTable : List Event :=
  [.chupai 1 leadPlay, .update 0, .chupai 2 hostedPlay, .update 0, .chupai 3 passPlay, .update 0,
    .chupai 1 passPlay]

theorem goesOn_aroundTable :
    Allowed (Table.step .exact) (GoesOnWith kaiguanNor .exact) (after {} leadTurn) aroundTable := by
  have hupdate (t : Table) (hnext : (t.step .exact (.update 0)).AtCp) :
      GoesOnWith kaiguanNor .exact t (.update 0) := ⟨⟨trivial, trivial⟩, nofun, hnext⟩
  refine ⟨?_, ?_, ?_, ?_, ?_, ?_, ?_, trivial⟩
  · exact goesOnWith_auto false (by decide +kernel) (by decide +kernel) (by decide +kernel)
      (by decide +kernel) (by decide +kernel) (by decide +kernel)
  · exact hupdate _ (by decide +kernel)
  · exact goesOnWith_auto true (by decide +kernel) (by decide +kernel) (by decide +kernel)
      (by decide +kernel) (by decide +kernel) (by decide +kernel)
  · exact hupdate _ (by decide +kernel)
  · exact goesOnWith_auto false (by decide +kernel) (by decide +kernel) (by decide +kernel)
      (by decide +kernel) (by decide +kernel) (by decide +kernel)
  · exact hupdate _ (by decide +kernel)
  · exact goesOnWith_auto false (by decide +kernel) (by decide +kernel) (by decide +kernel)
      (by decide +kernel) (by decide +kernel) (by decide +kernel)

theorem hand_ends_around : 4 = plays .exact (after {} leadTurn) aroundTable ∧
    plays .exact (after {} leadTurn) aroundTable ≤
      (after {} leadTurn).cfg.seatCount * (after {} leadTurn).cardsLeft :=
  ⟨by decide +kernel, hand_ends played_leadTurn (.inl (by decide +kernel)) (by decide +kernel)
    goesOn_aroundTable⟩

end Table

end JyQipai.Ddz
