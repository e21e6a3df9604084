import JyQipai.Ddz.Synced

/-!
# Plays that an agent lets through

An agent checks a play on its own copy of the cards, or finds one in it when the time is over.
Because the copy follows the table, the play can be made from the hand at the table.
-/

namespace JyQipai.Ddz

open JyQipai.Lib
open Table (ChupaiArgs)

section Hint

variable {kaiguan : Nat → Bool} {hand : Finset Nat} {phash : Nat → Nat}

/-- What the loop of `auto_choose_by_order` has chosen is in the hand. -/
structure Chosen (phash : Nat → Nat) (c : Nat × Nat) : Prop where
  type : c.1 ∈ [1, 2, 3, 13]
  rank : c.2 ∈ paiRanks
  num : keyPaiNum c.1 ≤ phash c.2

theorem orderLoop_chosen {ranks : List Nat} (hranks : ∀ r ∈ ranks, r ∈ paiRanks)
    {acc : Option (Nat × Nat)} (hacc : ∀ c ∈ acc, Chosen phash c) :
    ∀ c ∈ orderLoop kaiguan hand phash ranks acc, Chosen phash c := by
  induction ranks generalizing acc with
  | nil => exact hacc
  | cons r ranks ih =>
      have hr := hranks r List.mem_cons_self
      replace ih := @ih fun s hs => hranks s (List.mem_cons_of_mem _ hs)
      have hstep (type : Nat) (htype : type ∈ [1, 2, 3, 13]) (hnum : keyPaiNum type ≤ phash r)
          (b : Bool) : ∀ c ∈ if b then some (type, r) else acc, Chosen phash c := by
        intro c hc
        split at hc
        · obtain rfl := Option.some.inj hc
          exact ⟨htype, hr, hnum⟩
        · exact hacc c hc
      rw [orderLoop]
      split
      · next hone =>
        rintro c hc
        obtain rfl := Option.some.inj hc
        exact ⟨by simp, hr, by simp [keyPaiNum, hone]⟩
      · split
        · next htwo => exact ih (hstep 2 (by simp) (by simp [keyPaiNum, htwo]) _)
        · split
          · next hthree =>
            refine ih (hstep _ ?_ ?_ _)
            · split_ifs <;> simp
            · split_ifs <;> simp [keyPaiNum, hthree]
          · split
            · next hfour =>
              have := hstep 13 (by simp) (by simp [keyPaiNum, hfour]) (acc = none)
              simp only [decide_eq_true_eq] at this
              exact ih this
            · exact ih hacc

structure Hinted (hand : Finset Nat) (lzNum lzType : Nat) (r : HintResult) : Prop where
  packed : ∃ use : UseInfo, use.Fits (paiTypeMapOf hand lzType) lzNum ∧
    r.cpList = getCpListByUseInfo hand use
  merged : r.mergeCpList = some (r.cpList.norIds ++ r.cpList.lzIds)
  laziNum : r.laziNum = r.cpList.lzIds.length
  wf : (PaiType.mk r.type r.pai).Wf
  real : r.cpList.norIds ++ r.cpList.lzIds ≠ []

theorem hinted_package {lzNum lzType : Nat} {c : Combo}
    (h : c.use.Fits (paiTypeMapOf hand lzType) lzNum) (hwf : c.play.Wf)
    (hreal : ∃ r ∈ paiRanks, c.use.total r ≠ 0) : Hinted hand lzNum lzType (package hand c) := by
  refine ⟨⟨c.use, h, rfl⟩, mergeNorAndLz_useInfo h, rfl, hwf, fun hnil => ?_⟩
  obtain ⟨r, hr, hne⟩ := hreal
  apply hne
  have hcount := countP_package h hr
  change (package hand c).cpList.norIds ++ (package hand c).cpList.lzIds = [] at hnil
  change ((package hand c).cpList.norIds ++ (package hand c).cpList.lzIds).countP _ = _ at hcount
  rw [← hcount, hnil, List.countP_nil]

theorem Combo.Sound.real {phash : Nat → Nat} {lz : Nat} {c : Combo} (h : c.Sound phash lz) :
    ∃ r ∈ paiRanks, c.use.total r ≠ 0 := by
  by_contra hnone
  push Not at hnone
  obtain ⟨p, hp, -⟩ := h.makes
  rw [sortPaiByAmount_congr (g := fun _ => 0) hnone] at hp
  simp [sortPaiByAmount, paiCounts, paiTypeOfCounts] at hp

theorem Combo.Sound.wf {lzNum lzType : Nat} {c : Combo}
    (h : c.Sound (paiTypeMapOf hand lzType) lzNum) : c.play.Wf := by
  obtain ⟨p, hp, htype, hkey, hrun⟩ := h.makes
  have hwf := getPaiType_wf (getPaiType_package h.fits hp)
  have hend (n : Nat) (hn : c.type = n) (hrunType : isRunType n = true) :
      p.runEnd = c.play.runEnd := by
    apply hrun
    rwa [hn]
  have hc : c.play.type = c.type := rfl
  refine ⟨?_, fun hne => ?_, fun hr => ?_, fun h6 => ?_, fun h7 => ?_⟩
  · rw [hc, ← htype]
    exact hwf.type_le
  · rw [← hkey]
    exact hwf.key_ge (htype ▸ hne)
  · rw [← hkey, ← hrun hr]
    exact hwf.run (htype ▸ hr)
  · rw [← hkey, ← hend 6 h6 rfl]
    exact hwf.shunzi (htype.trans h6)
  · rw [← hkey, ← hend 7 h7 rfl]
    exact hwf.liandui (htype.trans h7)

theorem wf_single {type rank : Nat} (htype : type ∈ [1, 2, 3, 13]) (hrank : 3 ≤ rank) :
    (PaiType.mk type [rank]).Wf := by
  have hkey : (PaiType.mk type [rank]).key = rank := rfl
  simp only [List.mem_cons, List.not_mem_nil, or_false] at htype
  refine ⟨?_, fun _ => hkey ▸ hrank, fun hr => ?_, fun h6 => ?_, fun h7 => ?_⟩
  · change type ≤ 15
    omega
  · rcases htype with rfl | rfl | rfl | rfl <;> simp [isRunType] at hr
  · change type = 6 at h6
    omega
  · change type = 7 at h7
    omega

theorem hinted_order {lzNum lzType : Nat} {r : HintResult}
    (hlz : 0 < lzNum → 3 ≤ lzType ∧ lzType ≤ 15)
    (h : autoChooseByOrder kaiguan hand (paiTypeMapOf hand lzType) lzNum lzType = some r) :
    Hinted hand lzNum lzType r ∧ r.type ≠ 0 := by
  have hchosen : ∀ c ∈ orderLoop kaiguan hand (paiTypeMapOf hand lzType) paiRanks none,
      Chosen (paiTypeMapOf hand lzType) c :=
    orderLoop_chosen (fun _ hr => hr) fun _ hc => by cases hc
  have hempty := UseInfo.fits_empty (paiTypeMapOf hand lzType) lzNum
  unfold autoChooseByOrder at h
  split at h
  · next type rank hc =>
    obtain rfl := Option.some.inj h
    obtain ⟨htype, hrank, hnum⟩ := hchosen _ hc
    have hrange := mem_paiRanks.mp hrank
    refine ⟨hinted_package (hempty.add hrange (fun h => absurd h (lt_irrefl 0)) ?_ ?_)
      (wf_single htype hrange.1) ⟨rank, hrank, ?_⟩, ?_⟩
    · simpa [UseInfo.empty] using hnum
    · exact Nat.zero_le _
    · rw [UseInfo.total_add, UseInfo.total_empty]
      simp only [List.mem_cons, List.not_mem_nil, or_false] at htype
      rcases htype with rfl | rfl | rfl | rfl <;> simp [keyPaiNum]
    · rintro rfl
      simp at htype
  · split at h
    · next hpos =>
      obtain rfl := Option.some.inj h
      have hrange := hlz hpos
      refine ⟨hinted_package (hempty.add ⟨hrange.1, hrange.2.trans (by decide)⟩
        (fun _ => hrange.2) ?_ ?_) (wf_single (by simp) hrange.1)
        ⟨lzType, mem_paiRanks.mpr ⟨hrange.1, hrange.2.trans (by decide)⟩, ?_⟩, one_ne_zero⟩
      · exact Nat.zero_le _
      · have hzero : cardSum UseInfo.empty.lz = 0 := rfl
        simp only [hzero]
        omega
      · simp [UseInfo.total_add]
    · cases h

theorem hinted_type {lzNum lzType : Nat} {q : PaiType} {r : HintResult}
    (hhand : ∀ id ∈ hand, 1 ≤ id ∧ id ≤ 54) (hlz : 0 < lzNum → 3 ≤ lzType ∧ lzType ≤ 15)
    (hq : q.Wf) (hq0 : q.type ≠ 0)
    (h : cpHint kaiguan (some (q.type, q.pai)) hand lzNum lzType = some r) :
    r = { type := 0 } ∨
      Hinted hand lzNum lzType r ∧ (PaiType.mk r.type r.pai).Beats q ∧ q.type ≠ 14 := by
  simp only [cpHint, autoChooseByType, if_neg hq0] at h
  by_cases h14 : q.type = 14
  · rw [if_pos h14] at h
    exact .inl (Option.some.inj h).symm
  · rw [if_neg h14] at h
    split at h
    · exact .inl (Option.some.inj h).symm
    · next c hc =>
      split at h
      · obtain rfl := Option.some.inj h
        obtain ⟨hsound, hbeats⟩ :=
          chooseCombination_sound (handCount_of_hand hhand hlz) hq hq0 h14 hc
        exact .inr ⟨hinted_package hsound.fits hsound.wf hsound.real, hbeats, h14⟩
      · exact .inl (Option.some.inj h).symm

theorem checkChupaiSafe_of_beats {g : GameType} {l : List Act} {a : Act} {p : PaiType}
    (hmust : isMustChupai g l = false) (hlast : lastChupai l = some a) (ha : a.play.Wf)
    (ha0 : a.type ≠ 0) (h14 : a.type ≠ 14) (hp : p.Wf) (hbeats : p.Beats a.play) :
    p.type ≠ 0 ∧ checkChupaiSafe g l p.type p.pai = some true := by
  have htype : a.play.type = a.type := rfl
  have hmis : p.type ≠ 0 ∧ ¬ MisjudgedTypes p.type a.type := by
    unfold PaiType.Beats at hbeats
    unfold MisjudgedTypes
    rw [htype] at hbeats
    omega
  obtain ⟨b, hcheck, hb⟩ := (check_decides hmust hlast ha hp hmis.1).mpr hmis.2
  rw [hb.mpr hbeats] at hcheck
  exact ⟨hmis.1, hcheck⟩

theorem fromHand_useInfo {laizi : Option Nat} {lzNum : Nat} {use : UseInfo}
    (hfits : use.Fits (paiTypeMapOf hand (laizi.getD 0)) lzNum)
    (hnum : lzNum ≤ laizi.elim 0 fun lz => getPaiTypeHash hand lz)
    (hrank : ∀ lz ∈ laizi, lz ∈ paiRanks) :
    (getCpListByUseInfo hand use).FromHand hand laizi := by
  have hle : (getCpListByUseInfo hand use).lzIds.length ≤ lzNum :=
    length_lzIds.trans_le hfits.lz_le
  refine ⟨fun id hid => (norIds_mem hfits hid).1, norIds_nodup, fun id hid lz hlz => ?_,
    fun hsome => ?_, hrank, fun lz hlz => ?_⟩
  · have hne := (norIds_mem hfits hid).2
    rwa [Option.mem_def.mp hlz] at hne
  · cases laizi with
    | some lz => rfl
    | none =>
        have hnil : (getCpListByUseInfo hand use).lzIds = [] :=
          List.length_eq_zero_iff.mp (Nat.le_zero.mp (hle.trans hnum))
        rw [lzIds_getCpListByUseInfo] at hnil
        simp [getCpListByUseInfo, hnil] at hsome
  · rw [Option.mem_def.mp hlz] at hnum
    exact hle.trans hnum

end Hint

/-! ## Plays of an agent -/

namespace Table

variable {t u : Table} {kaiguan : Nat → Bool} {s : Nat} {args : ChupaiArgs}

/-- The agent of the seat calls the room with the play: it has checked a request of its client, or
the time is over. -/
def Offers (kaiguan : Nat → Bool) (t : Table) (s : Nat) (args : ChupaiArgs) : Prop :=
  (∃ type cpList,
    ((t.agent kaiguan s).requestChupai type cpList).2 = .called (.chupai s args)) ∨
  ∃ hosted, (t.agent kaiguan s).autoCp (isMustChupai t.cfg.gameType t.play.actList) hosted =
    some args

/-- In a game without wildcards the play has no list of wildcards, not even an empty one. -/
def NoEmptyLz (t : Table) (args : ChupaiArgs) : Prop :=
  args.type ≠ 0 → t.cfg.gameType ≠ .lz → ∀ cp ∈ args.cpList, cp.lz = none

/-- A play that reaches a table in its turn comes from the agent of an occupied seat. -/
def Validated (kaiguan : Nat → Bool) (t : Table) : Event → Prop
  | .chupai s args => t.status = .cp → t.play.curP = s →
      s ∈ t.seats ∧ t.Offers kaiguan s args ∧ t.NoEmptyLz args
  | _ => True

theorem mem_deck {g : GameType} {id : Nat} (h : id ∈ deck g) : 1 ≤ id ∧ id ≤ 54 := by
  unfold deck at h
  split at h <;> rw [List.mem_range'_1] at h <;> omega

theorem hand_range (h : t.Conserved) (hs : s ∈ t.cfg.seatList) :
    ∀ id ∈ t.play.pai s, 1 ≤ id ∧ id ≤ 54 := by
  intro id hid
  have hs' := mem_three hs
  simp only [List.mem_cons, List.not_mem_nil, or_false] at hs'
  apply mem_deck (g := t.cfg.gameType)
  rw [h.disjoint_union.2 id]
  refine ⟨t.play.pai s, ?_, hid⟩
  rcases hs' with rfl | rfl | rfl <;> simp [piles]

/-- A play that can be laid: its cards are there, its wildcards are counted, and it has cards unless
it is a pass. -/
structure FitPlay (t : Table) (s : Nat) (args : ChupaiArgs) : Prop where
  playable : t.Playable s args
  counts : args.CountsWild
  real : args.type ≠ 0 → args.mergeCpList ≠ []

theorem FitPlay.pass (h : args.type = 0) : t.FitPlay s args :=
  ⟨fun hne => absurd h hne, fun hne => absurd h hne, fun hne => absurd h hne⟩

theorem fitPlay_hintArgs {r : HintResult} {lzNum : Nat}
    (h : Hinted (t.play.pai s) lzNum (t.laizi.getD 0) r)
    (hnum : lzNum ≤ t.laizi.elim 0 fun lz => getPaiTypeHash (t.play.pai s) lz)
    (hrank : ∀ lz ∈ t.laizi, lz ∈ paiRanks) (htype : r.type ≠ 0) :
    t.FitPlay s (Agent.hintArgs r) := by
  obtain ⟨⟨use, hfits, hcp⟩, hmerged, hwild, -, hreal⟩ := h
  have hcpList : (Agent.hintArgs r).cpList = some r.cpList := if_neg htype
  refine ⟨fun _ => ⟨r.cpList, hcpList, ?_, ?_⟩, fun _ cp hmem => ?_, fun _ => ?_⟩
  · rw [hcp]
    exact fromHand_useInfo hfits hnum hrank
  · simp [Agent.hintArgs, hmerged]
  · rw [hcpList] at hmem
    obtain rfl := Option.some.inj hmem
    exact hwild
  · simpa [Agent.hintArgs, hmerged] using hreal

theorem toNat_wildcards (t : Table) (s : Nat) :
    (t.wildcards s).toNat = t.laizi.elim 0 fun lz => getPaiTypeHash (t.play.pai s) lz := by
  unfold wildcards
  cases t.laizi <;> simp

theorem Follows.toBeat {a : Agent} (h : Follows t s a)
    (hmust : isMustChupai t.cfg.gameType t.play.actList = false) :
    ∃ pos act, getRealChupaiPosByAct t.cfg.gameType a.actList = some pos ∧
      a.actList[pos - 1]? = some act ∧ lastChupai t.play.actList = some act ∧ act.play.Wf ∧
        act.type ≠ 0 :=
  h.acts.lastChupai hmust

structure AutoPlay (t : Table) (s : Nat) (args : ChupaiArgs) : Prop extends
    t.FitPlay s args where
  noEmpty : t.NoEmptyLz args
  wf : (PaiType.mk args.type args.keyPai).Wf
  allowed : checkChupaiSafe t.cfg.gameType t.play.actList args.type args.keyPai = some true

theorem Follows.auto {a : Agent} (h : Follows t s a) (ht : Steady t) (hcons : t.Conserved)
    (hdz : t.dzTaken = true) (hcp : t.AtCp) (hseat : s ∈ t.cfg.seatList)
    (hgame : a.gameType = t.cfg.gameType) {hosted : Bool}
    (ho : a.autoCp (isMustChupai t.cfg.gameType t.play.actList) hosted = some args) :
    t.AutoPlay s args := by
  have hdata := h.paiData (h.seen hdz)
  obtain ⟨hlz, hnum⟩ := h.laizi (.inl hcp)
  have hrange := hand_range hcons hseat
  have hlzRange : 0 < (t.wildcards s).toNat → 3 ≤ t.laizi.getD 0 ∧ t.laizi.getD 0 ≤ 15 := by
    intro hpos
    rw [toNat_wildcards] at hpos
    cases hlaizi : t.laizi with
    | none => simp [hlaizi] at hpos
    | some lz => exact ht.rank lz hlaizi
  have hhinted {r : HintResult}
      (hr : Hinted (t.play.pai s) (t.wildcards s).toNat (t.laizi.getD 0) r) (htype : r.type ≠ 0)
      (hallowed : checkChupaiSafe t.cfg.gameType t.play.actList r.type r.pai = some true) :
      t.AutoPlay s (Agent.hintArgs r) := by
    refine ⟨fitPlay_hintArgs hr (toNat_wildcards t s).le ht.laizi_rank htype,
      fun _ hgame cp hcp => ?_, hr.wf, hallowed⟩
    obtain ⟨use, hfits, hpacked⟩ := hr.packed
    obtain rfl : r.cpList = cp := Option.some.inj ((if_neg htype).symm.trans hcp)
    have hnone : (t.wildcards s).toNat = 0 := by rw [wildcards, ht.none hgame]; rfl
    have hnil : (getCpListByUseInfo (t.play.pai s) use).lzIds = [] := by
      apply List.length_eq_zero_iff.mp
      rw [length_lzIds]
      have := hfits.lz_le
      omega
    rw [lzIds_getCpListByUseInfo] at hnil
    rw [hpacked, getCpListByUseInfo]
    dsimp only
    rw [hnil, if_pos rfl]
  have hpass (hmust : isMustChupai t.cfg.gameType t.play.actList = false) {args : ChupaiArgs}
      (hargs : args.type = 0) (hcp : args.keyPai = []) : t.AutoPlay s args := by
    refine ⟨.pass hargs, fun hne => absurd hargs hne, ?_, ?_⟩
    · rw [hargs, hcp]
      decide
    · simp [checkChupaiSafe, hargs, hmust]
  unfold Agent.autoCp at ho
  dsimp only at ho
  split at ho
  · next hmust =>
    rw [hdata, Option.bind_some, hnum, hlz] at ho
    obtain ⟨r, hr, rfl⟩ := Option.map_eq_some_iff.mp ho
    obtain ⟨hint, htype⟩ := hinted_order hlzRange hr
    refine hhinted hint htype ?_
    simp [checkChupaiSafe, htype, hmust]
  · next hmust =>
    rw [Bool.not_eq_true] at hmust
    split at ho
    · obtain ⟨pos, act, hpos, hact, hlast, hwf, hne⟩ := h.toBeat hmust
      rw [hgame, hpos, Option.bind_some, hact, Option.bind_some, hdata, Option.bind_some, hnum,
        hlz] at ho
      obtain ⟨r, hr, rfl⟩ := Option.map_eq_some_iff.mp ho
      rcases hinted_type (q := act.play) hrange hlzRange hwf hne hr with
        rfl | ⟨hint, hbeats, h14⟩
      · exact hpass hmust rfl rfl
      · obtain ⟨htype, hallowed⟩ :=
          checkChupaiSafe_of_beats hmust hlast hwf hne h14 hint.wf hbeats
        exact hhinted hint htype hallowed
    · obtain rfl := Option.some.inj ho
      exact hpass hmust rfl rfl

section Checks

variable {a : Agent} {type : Int} {cpList : Option CpList} {o : Outcome}

theorem checkCpList_error {cp : CpList} (h : a.checkCpList cp = .error o) (e : Event) :
    o ≠ .called e := by
  unfold Agent.checkCpList at h
  rintro rfl
  split at h
  · cases h
  · cases h
  · split at h
    · cases h
    · split_ifs at h <;> cases h

theorem checkCpList_ok {cp : CpList} {n : Nat} (h : a.checkCpList cp = .ok n) :
    a.norAllowed cp.norIds = some true ∧ n = cp.lzIds.length ∧
      (cp.lz.isSome → a.gameType ≠ .nor ∧ (cp.lzIds.length : Int) ≤ a.laiziNum) := by
  unfold Agent.checkCpList at h
  split at h
  · cases h
  · cases h
  · next hnor =>
    split at h
    · next hlz =>
      obtain rfl := Except.ok.inj h
      exact ⟨hnor, by simp [CpList.lzIds, hlz], by simp [hlz]⟩
    · next lz hlz =>
      have hlen : cp.lzIds.length = lz.length := by simp [CpList.lzIds, hlz]
      split_ifs at h with hgame hnum
      obtain rfl := Except.ok.inj h
      exact ⟨hnor, hlen.symm, fun _ => ⟨hgame, by omega⟩⟩

theorem checkChupai_error (h : a.checkChupai type cpList = .error o) (e : Event) :
    o ≠ .called e := by
  unfold Agent.checkChupai at h
  rintro rfl
  split at h
  · cases h
  · cases h
  · dsimp only at h
    by_cases htype : type = 0
    · rw [if_pos htype] at h
      dsimp only at h
      cases hmerge : mergeNorAndLz cpList <;> rw [hmerge] at h <;> cases h
    · rw [if_neg htype] at h
      cases cpList with
      | none => cases h
      | some cp =>
          dsimp only at h
          cases hcp : a.checkCpList cp with
          | error o =>
              rw [hcp] at h
              obtain rfl := Except.error.inj h
              exact checkCpList_error hcp e rfl
          | ok n =>
              rw [hcp] at h
              dsimp only at h
              cases hmerge : mergeNorAndLz (some cp) <;> rw [hmerge] at h <;> cases h

theorem checkChupai_ok {merged : List Nat} {n : Nat}
    (h : a.checkChupai type cpList = .ok (merged, n)) : mergeNorAndLz cpList = some merged ∧
      (type ≠ 0 → ∃ cp, cpList = some cp ∧ a.checkCpList cp = .ok n) := by
  unfold Agent.checkChupai at h
  split at h
  · cases h
  · cases h
  · dsimp only at h
    by_cases htype : type = 0
    · rw [if_pos htype] at h
      refine ⟨?_, fun hne => absurd htype hne⟩
      dsimp only at h
      cases hmerge : mergeNorAndLz cpList with
      | none =>
          rw [hmerge] at h
          cases h
      | some ids =>
          rw [hmerge] at h
          obtain ⟨rfl, -⟩ := Prod.mk.inj (Except.ok.inj h)
          rfl
    · rw [if_neg htype] at h
      cases cpList with
      | none => cases h
      | some cp =>
          dsimp only at h
          cases hcp : a.checkCpList cp with
          | error o =>
              rw [hcp] at h
              cases h
          | ok n =>
              rw [hcp] at h
              dsimp only at h
              cases hmerge : mergeNorAndLz (some cp) with
              | none =>
                  rw [hmerge] at h
                  cases h
              | some ids =>
                  rw [hmerge] at h
                  obtain ⟨rfl, rfl⟩ := Prod.mk.inj (Except.ok.inj h)
                  exact ⟨rfl, fun _ => ⟨cp, rfl, hcp⟩⟩

theorem requestChupai_called (h : (a.requestChupai type cpList).2 = .called (.chupai s args)) :
    ∃ p, getPaiType args.mergeCpList args.laziNum = some (some p) ∧ args.type = p.type ∧
      args.keyPai = p.pai ∧ mergeNorAndLz args.cpList = some args.mergeCpList ∧
      (args.type ≠ 0 → ∃ cp, args.cpList = some cp ∧
        a.cancelAuto.checkCpList cp = .ok args.laziNum) := by
  unfold Agent.requestChupai at h
  dsimp only at h
  split at h
  · next o hcheck => exact absurd h (checkChupai_error hcheck _)
  · next merged laziNum hcheck =>
    obtain ⟨hmerge, hcp⟩ := checkChupai_ok hcheck
    split at h
    · cases h
    · cases h
    · next p hp =>
      split at h
      · cases h
      · next heq =>
        rw [not_not] at heq
        obtain ⟨-, rfl⟩ := Event.chupai.inj (Outcome.called.inj h)
        refine ⟨p, hp, rfl, rfl, hmerge, fun hne => hcp ?_⟩
        rw [← heq]
        exact_mod_cast hne

end Checks

theorem Follows.request {a : Agent} (h : Follows t s a) (ht : Steady t) (hdz : t.dzTaken = true)
    (hcp : t.AtCp) (hempty : t.NoEmptyLz args) {type : Int} {cpList : Option CpList}
    (hr : (a.requestChupai type cpList).2 = .called (.chupai s args)) : t.FitPlay s args := by
  have hdata := h.paiData (h.seen hdz)
  obtain ⟨hlz, hnum⟩ := h.laizi (.inl hcp)
  obtain ⟨p, htypeOf, htype, -, hmerge, hcheck⟩ := requestChupai_called hr
  have hfit (cp : CpList) (hcpList : args.cpList = some cp) (htype : args.type ≠ 0) :
      args.laziNum = cp.lzIds.length ∧ cp.FromHand (t.play.pai s) t.laizi := by
    obtain ⟨cp', hcp', hok⟩ := hcheck htype
    obtain rfl := Option.some.inj (hcpList.symm.trans hcp')
    obtain ⟨hnor, hlen, hlzs⟩ := checkCpList_ok hok
    refine ⟨hlen, ?_⟩
    have hwild : cp.lz.isSome → t.cfg.gameType = .lz := fun hsome => by
      by_contra hgame
      rw [hempty htype hgame cp hcpList] at hsome
      cases hsome
    have hnorIds : cp.norIds.Nodup ∧ ∀ id ∈ cp.norIds, id ∈ t.play.pai s ∧ paiMap id ≠ a.laizi := by
      unfold Agent.norAllowed at hnor
      split at hnor
      · next hnil => simp [hnil]
      · change (a.paiData.map _) = _ at hnor
        rw [hdata] at hnor
        simpa [handData] using hnor
    refine ⟨fun id hid => (hnorIds.2 id hid).1, hnorIds.1, fun id hid lz hmem => ?_,
      fun hsome => ht.wild hcp (hwild hsome), ht.laizi_rank, fun lz hmem => ?_⟩
    · have hne := (hnorIds.2 id hid).2
      rwa [hlz, Option.mem_def.mp hmem] at hne
    · cases hlzv : cp.lz with
      | none => simp [CpList.lzIds, hlzv]
      | some l =>
          have hle : (cp.lzIds.length : Int) ≤ a.laiziNum := (hlzs (by simp [hlzv])).2
          rw [hnum, wildcards, Option.mem_def.mp hmem] at hle
          exact Int.ofNat_le.mp hle
  refine ⟨fun htype => ?_, fun htype cp hcpList => (hfit cp hcpList htype).1, fun hne hnil => ?_⟩
  · obtain ⟨cp, hcpList, -⟩ := hcheck htype
    refine ⟨cp, hcpList, (hfit cp hcpList htype).2, ?_⟩
    rw [hcpList, mergeNorAndLz] at hmerge
    split at hmerge
    · cases hmerge
    · rw [← Option.some.inj hmerge, List.length_append]
  · -- no cards are classified as a pass
    rw [hnil, getPaiType, if_pos rfl] at htypeOf
    obtain rfl := Option.some.inj (Option.some.inj htypeOf)
    exact hne htype

/-! ## Runs -/

theorem Synced.fitPlay (h : Synced kaiguan t) (hc : t.Cards) (hstatus : t.status = .cp)
    (hseat : s ∈ t.cfg.seatList) (hs : s ∈ t.seats) (ho : t.Offers kaiguan s args)
    (hempty : t.NoEmptyLz args) : t.FitPlay s args := by
  have hcards := hc.status
  rw [hstatus] at hcards
  have hcp : t.AtCp := .inl hstatus
  have hf := h.follows hcards.1 s hs hseat
  rcases ho with ⟨type, cpList, hr⟩ | ⟨hosted, hr⟩
  · exact hf.request h.toSteady hcards.2 hcp hempty hr
  · exact (hf.auto h.toSteady hcards.1 hcards.2 hcp hseat (gameType_agent t s) hr).toFitPlay

theorem Synced.step (h : Synced kaiguan t) (hc : t.Cards) (hi : t.Inv) (F : NumFormat) {e : Event}
    (he : t.Legal e) (hv : t.Validated kaiguan e) : Synced kaiguan (t.step F e) := by
  refine h.moves (step_moves hc hi h.onward F he ?_)
  rintro seat args rfl hstatus hturn
  obtain ⟨hs, ho, hempty⟩ := hv hstatus hturn
  have hfit := h.fitPlay hc hstatus he.1 hs ho hempty
  exact ⟨hfit.playable, hfit.counts⟩

theorem Synced.cards (h : Synced kaiguan t) (hc : t.Cards) (hi : t.Inv) (F : NumFormat) {e : Event}
    (he : t.Legal e) (hv : t.Validated kaiguan e) : (t.step F e).Cards := by
  by_cases hplay : t.PlaysFromHand e
  · exact hc.step hi F he hplay
  · cases e with
    | chupai seat args =>
        by_cases hturn : t.status = .cp ∧ t.play.curP = seat
        · obtain ⟨hs, ho, hempty⟩ := hv hturn.1 hturn.2
          exact absurd (h.fitPlay hc hturn.1 he.1 hs ho hempty).playable hplay
        · have hsame : t.step F (.chupai seat args) = t := by
            unfold Table.step
            split
            · rfl
            · exact chupai_elsewhere hturn
          rwa [hsame]
    | _ => exact absurd trivial hplay

theorem synced_newTable (kaiguan : Nat → Bool) (cfg : Config) : Synced kaiguan (newTable cfg) := by
  have hfresh : (newTable cfg).Fresh := ⟨rfl, rfl, rfl⟩
  have hempty (P : Nat → Prop) : (newTable cfg).AtSeats P := fun _ hs => by
    have hnil : (newTable cfg).seats = [] := rfl
    rw [hnil] at hs
    cases hs
  refine ⟨⟨?_, ?_, fun _ => rfl, ?_, fun _ => rfl,
    fun _ => hfresh.not_conserved, fun _ _ _ => ?_, Int.natCast_nonneg _⟩, fun _ => hempty _,
    fun _ => hempty _, fun _ => hempty _⟩
  · rintro _ ⟨⟩
  · rintro _ ⟨⟩
  · rintro (hs | ⟨hs, -⟩) <;> cases hs
  · change (if cfg.isMld then false else false) = false
    split <;> rfl

abbrev Played (kaiguan : Nat → Bool) (F : NumFormat) (cfg : Config) (t : Table) : Prop :=
  Reach (Table.step F) (fun t e => t.Legal e ∧ t.Validated kaiguan e) (newTable cfg) t

theorem Played.synced {F : NumFormat} {cfg : Config} (h : Played kaiguan F cfg t) :
    t.Inv ∧ t.Cards ∧ Synced kaiguan t := by
  refine Reach.invariant (P := fun t => t.Inv ∧ t.Cards ∧ Synced kaiguan t)
    ⟨newTable_inv cfg, cards_newTable cfg, synced_newTable kaiguan cfg⟩
    (fun t e ⟨hi, hc, hs⟩ he => ?_) h
  exact ⟨hi.step F he.1, hs.cards hc hi F he.1 he.2, hs.step hc hi F he.1 he.2⟩

end Table

end JyQipai.Ddz
