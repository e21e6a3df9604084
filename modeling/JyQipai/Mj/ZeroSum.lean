import JyQipai.Lib.Balance
import JyQipai.Lib.Piles
import JyQipai.Mj.Rules

/-!
# Mahjong scores are zero-sum

Every payment books what the losers pay, one after the other, and then credits
the winner.  While it waits for an agent, other commands may be handled; the
scores of the table and the open amounts of all payments in progress always make
zero.  Only the start of a new hand, which clears the scores, must not fall into
a payment.
-/

namespace JyQipai.Mj

open JyQipai.Lib

def HuInfo.In (cfg : Config) (hu : HuInfo) : Prop :=
  ∀ d ∈ hu.dianpaoP, d ∈ cfg.seatList

def HuAct.In (cfg : Config) (a : HuAct) : Prop :=
  a.p ∈ cfg.seatList ∧ a.info.In cfg

structure Gang.In (cfg : Config) (g : Gang) : Prop where
  others : ∀ s ∈ g.others, s ∈ cfg.seatList
  dst : ∀ s ∈ g.zhuanYuTo, s ∈ cfg.seatList
  score : 0 ≤ g.score

namespace Table

structure Ranged (cfg : Config) (t : Table) : Prop where
  config : t.cfg = cfg
  permit : ∀ s, ∀ p ∈ t.pPermit s, ∀ hu ∈ p.hu, hu.In cfg
  waitHu : ∀ s, ∀ a ∈ t.waitHuActions s, a.In cfg
  robHu : ∀ s, ∀ a ∈ t.qghManagerWaitHu s, a.In cfg
  waitPg : ∀ act ∈ t.waitPgAction, act.p ∈ cfg.seatList
  wanGang : ∀ act ∈ t.curWanGang, act.p ∈ cfg.seatList
  chupai : ∀ c ∈ t.curChupai, c.1 ∈ cfg.seatList
  zhuanYu : ∀ s ∈ t.zhuanYuSeat, s ∈ cfg.seatList
  acts : ∀ act ∈ t.actionList, act.p ∈ cfg.seatList
  gangs : ∀ s, ∀ g ∈ (t.sInfo s).gangScore, g.In cfg
  piao : ∀ s, (t.seat s).piaoNum ≤ 5
  next : t.nextStatus ≠ some .moPai
  broken : t.isBreakRace → t.isBreakGame

def books (t : Table) : Int × Int :=
  (t.cfg.seatList.map fun s => ((t.sInfo s).score, (t.sInfo s).loseSurplus)).sum

def ledger (t : Table) : Config × Nat × (Nat → Int × Int) :=
  (t.cfg, t.curRace, fun s => ((t.sInfo s).score, (t.sInfo s).loseSurplus))

def ranges (t : Table) :=
  (t.pPermit, t.waitHuActions, t.qghManagerWaitHu, t.waitPgAction, t.curWanGang,
    t.curChupai, t.zhuanYuSeat, t.actionList, t.nextStatus,
    (fun s => (t.sInfo s).gangScore), (fun s => (t.seat s).piaoNum), t.isBreakRace,
    t.isBreakGame)

section Books

variable {cfg : Config} {t u : Table}

theorem Ranged.of_ranges (h : Ranged cfg t) (hc : u.cfg = t.cfg) (hr : u.ranges = t.ranges) :
    Ranged cfg u := by
  simp only [ranges, Prod.mk.injEq] at hr
  obtain ⟨h1, h2, h3, h4, h5, h6, h7, h8, hnext, h9, h10, hrace, hgame⟩ := hr
  exact ⟨hc.trans h.config, h1 ▸ h.permit, h2 ▸ h.waitHu, h3 ▸ h.robHu, h4 ▸ h.waitPg,
    h5 ▸ h.wanGang, h6 ▸ h.chupai, h7 ▸ h.zhuanYu, h8 ▸ h.acts,
    fun s g hg => h.gangs s g (congrFun h9 s ▸ hg),
    fun s => (congrFun h10 s).trans_le (h.piao s), hnext ▸ h.next,
    hrace ▸ hgame ▸ h.broken⟩

theorem books_of_ledger (h : u.ledger = t.ledger) : u.books = t.books := by
  simp only [ledger, Prod.mk.injEq] at h
  obtain ⟨hc, -, hs⟩ := h
  rw [books, books, hc, hs]

theorem books_book {race s : Nat} (hs : s ∈ t.cfg.seatList) (m n : Int) :
    (t.book race s m n).books = t.books + (m, n) := by
  have hupdate : (fun x => (((t.book race s m n).sInfo x).score,
      ((t.book race s m n).sInfo x).loseSurplus)) =
      Function.update (fun x => ((t.sInfo x).score, (t.sInfo x).loseSurplus)) s
        ((t.sInfo s).score + m, (t.sInfo s).loseSurplus + n) := by
    funext x
    by_cases hx : x = s
    · subst hx
      simp [book]
    · simp [book, hx]
  have hsum := sum_map_update (List.nodup_range' : t.cfg.seatList.Nodup) hs
    (fun x => ((t.sInfo x).score, (t.sInfo x).loseSurplus))
    ((t.sInfo s).score + m, (t.sInfo s).loseSurplus + n)
  have hcfg : (t.book race s m n).cfg = t.cfg := rfl
  rw [books, hupdate, hcfg]
  have hpair : ((t.sInfo s).score + m, (t.sInfo s).loseSurplus + n) =
      (m, n) + ((t.sInfo s).score, (t.sInfo s).loseSurplus) := by
    ext <;> simp [add_comm]
  rw [hpair, ← add_assoc] at hsum
  rw [hpair]
  exact add_right_cancel hsum

theorem ranged_book (h : Ranged cfg t) (race s : Nat) (m n : Int) :
    Ranged cfg (t.book race s m n) := by
  refine { h with gangs := fun x => ?_ }
  by_cases hx : x = s
  · subst hx
    simpa [book] using h.gangs x
  · simpa [book, hx] using h.gangs x

theorem ranges_setSeat (t : Table) (s : Nat) {f : SeatPai → SeatPai}
    (hf : ∀ d, (f d).piaoNum = d.piaoNum) : (t.setSeat s f).ranges = t.ranges := by
  have hseat : (fun x => ((t.setSeat s f).seat x).piaoNum) = fun x => (t.seat x).piaoNum := by
    funext x
    by_cases hx : x = s
    · subst hx
      simp [setSeat, hf]
    · simp [setSeat, hx]
  simp only [ranges, hseat]
  rfl

theorem Ranged.setSeat (h : Ranged cfg t) (s : Nat) {f : SeatPai → SeatPai}
    (hf : ∀ d, (f d).piaoNum = d.piaoNum) : Ranged cfg (t.setSeat s f) :=
  h.of_ranges rfl (ranges_setSeat t s hf)

theorem Ranged.addAct (h : Ranged cfg t) {act : Act} (ha : act.p ∈ cfg.seatList) :
    Ranged cfg (t.addAct act) := by
  refine { h with acts := fun a hmem => ?_ }
  rcases List.mem_append.mp hmem with hmem | hmem
  · exact h.acts a hmem
  · obtain rfl := List.mem_singleton.mp hmem
    exact ha

theorem Ranged.setPermit (h : Ranged cfg t) (s : Nat) {p : Permit}
    (hp : ∀ hu ∈ p.hu, hu.In cfg) : Ranged cfg (t.setPermit s p) := by
  refine { h with permit := fun x q hq => ?_ }
  by_cases hx : x = s
  · subst hx
    obtain rfl : p = q := by simpa [Table.setPermit] using hq
    exact hp
  · exact h.permit x q (by simpa [Table.setPermit, hx] using hq)

theorem Ranged.clearPermits (h : Ranged cfg t) : Ranged cfg { t with pPermit := fun _ => none } :=
  { h with permit := by simp }

theorem Ranged.hupaiInfo (h : Ranged cfg t) {s z m c n : Nat} {pai : PaiMap} {pg : PgMap}
    {que : Option Nat} {hu : HuInfo}
    (hhu : t.cfg.algo.getHupaiAllInfo pai pg que t.actionList s z m c n = some (some hu)) :
    hu.In cfg := by
  have hcap : ∀ i : HuInfo, (t.cfg.algo.capFan i).dianpaoP = i.dianpaoP := by
    intro i
    unfold Algo.capFan
    split <;> rfl
  unfold Algo.getHupaiAllInfo at hhu
  dsimp only at hhu
  split at hhu
  · cases hhu
  · split at hhu
    · cases hhu
    · split at hhu
      · split at hhu
        · cases hhu
        · next act rob hact =>
          split at hhu
          · cases hhu
          · obtain ⟨mul, -, rfl⟩ := Option.map_eq_some_iff.mp (Option.some.inj hhu)
            intro d hd
            rw [Algo.paoInfo, hcap] at hd
            obtain rfl := Option.some.inj hd
            refine h.acts act ?_
            unfold Algo.paoAct at hact
            split at hact
            · next a ha =>
              obtain ⟨rfl, -⟩ := Prod.mk.inj (Option.some.inj hact)
              exact List.mem_of_getLast? (Option.filter_eq_some_iff.mp ha).1
            · split at hact
              · cases hact
              · next a ha =>
                split at hact
                · obtain ⟨rfl, -⟩ := Prod.mk.inj (Option.some.inj hact)
                  exact List.mem_of_getLast? ha
                · cases hact
      · split at hhu
        · cases hhu
        · intro d hd
          unfold Algo.zimoInfo at hhu
          dsimp only at hhu
          split at hhu
          · obtain rfl := Option.some.inj (Option.some.inj hhu)
            rw [hcap] at hd
            cases hd
          · simp only [Option.map_map, Option.map_eq_some_iff] at hhu
            obtain ⟨act, -, hact⟩ := hhu
            obtain rfl := Option.some.inj hact
            rw [hcap] at hd
            cases hd

theorem Ranged.hupai (h : Ranged cfg t) {s : Nat} {hu : HuInfo} (hhu : t.hupai s = some hu) :
    hu.In cfg :=
  h.hupaiInfo (Option.join_eq_some_iff.mp hhu)

end Books

section Pay

variable {cfg : Config} {F : NumFormat} {t u : Table} {may : Prop} {e : Nat}
  {c g : Int × Int} {α β : Type}

abbrev scoreBooks (cfg : Config) : Bookkeeping Table Query Answer (Int × Int) where
  valid := Valid
  opens q := ∃ s n, q = .modifyScore s n
  closes q := q = .raceLog
  keeps := Ranged cfg
  epoch t := t.curRace
  books := books

/-- The table is in order and the amount `g` is still to be booked. -/
abbrev Books (cfg : Config) (may : Prop) (e : Nat) (c g : Int × Int) (t : Table) : Prop :=
  (scoreBooks cfg).Account may e c g t

abbrev Pays (cfg : Config) (may : Prop) (e : Nat) (c : Int × Int) (p : M α) : Prop :=
  p.Owes (scoreBooks cfg) may e c

def Goes (cfg : Config) (g : Int × Int) (k : Table → M α) : Prop :=
  ∀ {may e c t}, Books cfg may e c g t → Pays cfg may e c (k t)

theorem Books.ranged (h : Books cfg may e c g t) (hl : u.ledger = t.ledger)
    (hr : Ranged cfg u) : Books cfg may e c g u := by
  have hbooks := books_of_ledger hl
  simp only [ledger, Prod.mk.injEq] at hl
  have hrace : u.curRace = t.curRace := hl.2.1
  have hsum : t.books + g = if t.curRace = e then c else 0 := h.sum
  refine ⟨hr, h.later.trans_eq hrace.symm, h.closed.imp_right hrace.trans, ?_⟩
  show u.books + g = if u.curRace = e then c else 0
  rw [hrace, hbooks, hsum]

theorem Books.same (h : Books cfg may e c g t) (hl : u.ledger = t.ledger)
    (hr : u.ranges = t.ranges) : Books cfg may e c g u := by
  refine h.ranged hl (h.keeps.of_ranges ?_ hr)
  simp only [ledger, Prod.mk.injEq] at hl
  exact hl.1

theorem Books.book (h : Books cfg may e c g t) (race : Nat) {s : Nat} (hs : s ∈ cfg.seatList)
    (m n : Int) : Books cfg may e c (g - (m, n)) (t.book race s m n) := by
  refine ⟨ranged_book h.keeps race s m n, h.later, h.closed, ?_⟩
  have hsum := h.sum
  dsimp only [scoreBooks] at hsum ⊢
  rw [books_book (h.keeps.config ▸ hs), add_assoc, add_sub_cancel]
  exact hsum

theorem Books.wait (h : Books cfg may e c g t) {s : Status} (hs : s ≠ .moPai) :
    Books cfg may e c g (t.wait s) :=
  h.ranged rfl { h.keeps with next := fun heq => hs (Option.some.inj heq) }

theorem pays_ask (h : Books cfg may e c g t) {q : Query} (hq : (scoreBooks cfg).opens q ∨ g = 0)
    {k : Int → Table → M α}
    (hk : ∀ a, Valid q a → ∀ {e c u}, Books cfg (q = .raceLog) e c g u →
      Pays cfg (q = .raceLog) e c (k a.value u)) : Pays cfg may e c (t.ask q k) :=
  ⟨g, h, hq, fun a _ ha hu => hk a ha
    (Books.same (Bookkeeping.Account.resume hu (q = .raceLog) g) rfl rfl)⟩

theorem pays_changeOnePlayerScore (h : Books cfg may e c g t) (s : Nat) (score : Int)
    {k : Int → Table → M α} (hk : ∀ n, Fair score n → Goes cfg g (k n)) :
    Pays cfg may e c (t.changeOnePlayerScore s score k) := by
  unfold changeOnePlayerScore
  split
  · exact pays_ask h (.inl ⟨s, score, rfl⟩) fun a ha => hk a.value ha
  · exact hk score ⟨fun hs => ⟨le_refl _, hs⟩, fun _ => rfl⟩ h

theorem pays_payLosers {race seat : Nat} {piao : Option Nat} {cap : Option Int}
    (hcap : ∀ m ∈ cap, 0 ≤ m) {k : Int → Int → Table → M α}
    (hk : ∀ sum surplus, sum ≤ 0 → Goes cfg (-(sum, surplus)) (k sum surplus))
    {others : List Nat} (hothers : ∀ s ∈ others, s ∈ cfg.seatList)
    {score sum surplus : Int} (hscore : 0 ≤ score) (hsum : sum ≤ 0) :
    Goes cfg (-(sum, surplus))
      (payLosers race seat piao cap k others score sum surplus) := by
  induction others generalizing score sum surplus with
  | nil => exact hk sum surplus hsum
  | cons loser others ih =>
      intro may e c t h
      have hpiao : ¬ (piao.isSome ∧
          (5 < (t.seat seat).piaoNum ∨ 5 < (t.seat loser).piaoNum)) := by
        rintro ⟨-, hp | hp⟩
        · exact absurd (h.keeps.piao seat) (by omega)
        · exact absurd (h.keeps.piao loser) (by omega)
      unfold payLosers
      rw [if_neg hpiao]
      have hasked := askedScore_nonneg piao hcap hscore
      refine pays_changeOnePlayerScore h loser _ fun n hn may e c u hu => ?_
      have hdeduct := hn.1 (by omega)
      have hbook := hu.book race (hothers loser (by simp)) n
        (askedScore piao cap score + n)
      refine ih (fun s hs => hothers s (by simp [hs])) hasked (by omega) ?_
      have hopen : -(sum + n, surplus + (askedScore piao cap score + n)) =
          -(sum, surplus) - (n, askedScore piao cap score + n) := by
        ext <;> simp <;> ring
      rw [hopen]
      exact hbook

theorem pays_payWinner {race seat : Nat} (hseat : seat ∈ cfg.seatList)
    {sum surplus : Int} (hsum : sum ≤ 0) {k : Int → Int → Table → M α}
    (hk : ∀ m n, 0 ≤ m → Goes cfg 0 (k m n)) :
    Goes cfg (-(sum, surplus)) fun t => t.payWinner race seat sum surplus k := by
  intro may e c t h
  have hbook := h.book race hseat |sum| (-surplus)
  have hopen : -(sum, surplus) - (|sum|, -surplus) = 0 := by
    ext <;> simp [abs_of_nonpos hsum]
  rw [hopen] at hbook
  exact pays_changeOnePlayerScore hbook seat _ fun _ _ => hk _ _ (abs_nonneg _)

theorem pays_dealChangeScore {race seat : Nat} (hseat : seat ∈ cfg.seatList) {total : ℚ}
    (htotal : 0 ≤ total) {others : List Nat} (hothers : ∀ s ∈ others, s ∈ cfg.seatList)
    {type : PayType} {k : Int → Int → Table → M α}
    (hk : ∀ m n, 0 ≤ m → Goes cfg 0 (k m n)) :
    Goes cfg 0 fun t => dealChangeScore F t race seat total others type k := by
  intro may e c t h
  have hscore : 0 ≤ ⌊F.mul total t.cfg.initStake⌋ :=
    Int.floor_nonneg.mpr (NumFormat.rnd_nonneg (by positivity))
  have hpay : ∀ cap : Option Int, (∀ m ∈ cap, 0 ≤ m) → Goes cfg 0
      (payLosers race seat (if t.cfg.daPiao then some t.getDaPiaoPlayerNum else none) cap
        (fun sum surplus t => t.payWinner race seat sum surplus k) others
        ⌊F.mul total t.cfg.initStake⌋ 0 0) := by
    intro cap hcap may e c u hu
    rw [← neg_zero, ← Prod.mk_zero_zero] at hu
    exact pays_payLosers hcap (fun sum surplus hsum => pays_payWinner hseat hsum hk)
      hothers hscore (le_refl 0) hu
  unfold dealChangeScore
  dsimp only
  split
  · exact pays_ask h (.inr rfl) fun a ha => hpay (some a.value) fun m hm => by
      obtain rfl := Option.some.inj hm
      exact ha
  · exact hpay none (by simp) h

theorem pays_recordGangScore {race seat : Nat} (hseat : seat ∈ cfg.seatList)
    {type : PgType} {pai : Nat} {others : List Nat}
    (hothers : ∀ s ∈ others, s ∈ cfg.seatList) {k : Table → M α} (hk : Goes cfg 0 k) :
    Goes cfg 0 fun t => t.recordGangScore F race seat type pai others k := by
  intro may e c t h
  unfold recordGangScore
  split
  · exact hk h
  · refine pays_dealChangeScore hseat (by positivity) hothers (fun m n hm may e c u hu => ?_) h
    refine hk (hu.ranged ?_ { hu.keeps with gangs := fun s g hg => ?_ })
    · simp only [ledger, Prod.mk.injEq, true_and]
      funext s
      by_cases hs : s = seat
      · subst hs
        simp
      · simp [hs]
    · by_cases hs : s = seat
      · subst hs
        simp only [Function.update_self] at hg
        rcases List.mem_append.mp hg with hg | hg
        · exact hu.keeps.gangs s g hg
        · obtain rfl := List.mem_singleton.mp hg
          exact ⟨hothers, by simp, hm⟩
      · exact hu.keeps.gangs s g (by simpa [hs] using hg)

def Pay.In (cfg : Config) (pay : Pay) : Prop :=
  pay.seat ∈ cfg.seatList ∧ pay.loser ∈ cfg.seatList

theorem pays_runPays {race : Nat} {k : Table → M α} (hk : Goes cfg 0 k)
    {pays : List Pay} (hpays : ∀ pay ∈ pays, Pay.In cfg pay) :
    Goes cfg 0 (runPays F race k pays) := by
  induction pays with
  | nil => exact hk
  | cons pay pays ih =>
      intro may e c t h
      have hpay := hpays pay (by simp)
      unfold runPays
      refine pays_dealChangeScore hpay.1 (Nat.cast_nonneg _) (by simpa using hpay.2) ?_ h
      exact fun _ _ _ => ih fun p hp => hpays p (by simp [hp])

theorem chaJiaoPays_in (h : Ranged cfg t) {s : Nat} (hs : s ∈ cfg.seatList) :
    ∀ pay ∈ t.chaJiaoPays s, Pay.In cfg pay := by
  have hting : ∀ x ∈ t.tingSeats, x ∈ cfg.seatList := fun x hx =>
    h.config ▸ List.mem_of_mem_filter hx
  have hwujiao : ∀ x ∈ t.wujiaoSeats, x ∈ cfg.seatList := fun x hx =>
    h.config ▸ List.mem_of_mem_filter hx
  intro pay hpay
  unfold chaJiaoPays at hpay
  rcases List.mem_append.mp hpay with hpay | hpay
  · obtain ⟨x, hx, rfl⟩ := List.mem_map.mp hpay
    dsimp only
    split <;> exact ⟨hting x hx, hs⟩
  · split at hpay
    · obtain ⟨x, hx, rfl⟩ := List.mem_map.mp hpay
      exact ⟨hwujiao x (List.mem_of_mem_filter hx), hs⟩
    · cases hpay

theorem tuiShuiPays_in (h : Ranged cfg t) {s : Nat} (hs : s ∈ cfg.seatList) :
    ∀ pay ∈ t.tuiShuiPays s, Pay.In cfg pay := by
  intro pay hpay
  obtain ⟨g, hg, hpay⟩ := List.mem_flatMap.mp hpay
  obtain ⟨x, hx, rfl⟩ := List.mem_map.mp hpay
  have hgang := h.gangs s g hg
  refine ⟨hgang.others x hx, ?_⟩
  dsimp only
  cases hto : g.zhuanYuTo with
  | none => exact hs
  | some z => exact hgang.dst z hto

theorem pays_settleChaJiao {race : Nat} {k : Table → M α} (hk : Goes cfg 0 k) :
    Goes cfg 0 fun t => t.settleChaJiao F race k := by
  intro may e c t h
  unfold settleChaJiao
  dsimp only
  split
  · have hseats : ∀ x ∈ t.wujiaoSeats, x ∈ cfg.seatList := fun x hx =>
      h.keeps.config ▸ List.mem_of_mem_filter hx
    refine pays_runPays hk (fun pay hpay => ?_) h
    rcases List.mem_append.mp hpay with hpay | hpay
    · obtain ⟨s, hs, hpay⟩ := List.mem_flatMap.mp hpay
      exact chaJiaoPays_in h.keeps (hseats s hs) pay hpay
    · obtain ⟨s, hs, hpay⟩ := List.mem_flatMap.mp hpay
      exact tuiShuiPays_in h.keeps (hseats s hs) pay hpay
  · exact hk h

theorem books_newGame (hmay : may) (h : Ranged cfg t) (he : e < t.curRace) :
    Books cfg may e c 0 t.newGame := by
  have hranged : Ranged cfg t.newGame := by
    refine ⟨h.config, ?_, ?_, ?_, ?_, ?_, ?_, ?_, ?_, ?_, ?_, h.next, h.broken⟩ <;>
      simp [newGame]
  have hempty : t.newGame.books = 0 := by simp [books, newGame]
  refine ⟨hranged, Nat.le_of_lt he, .inl hmay, ?_⟩
  show t.newGame.books + 0 = if t.curRace = e then c else 0
  rw [hempty, if_neg (by omega), add_zero]

theorem Books.nextGame (hmay : may ∨ t.isBreakRace) (h : Books cfg may e c 0 t) :
    Books cfg may e c 0 t.nextGame := by
  unfold Table.nextGame
  split
  · exact h.wait (by decide)
  · next hgoes =>
    have hmay : may := hmay.resolve_right fun hb => hgoes (.inl (h.keeps.broken hb))
    exact books_newGame hmay (h.keeps.of_ranges rfl rfl) (Nat.lt_succ_of_le h.later)

theorem Books.of_sInfo (h : Books cfg may e c g t) {i : Nat → SInfo}
    (hi : ∀ s, (i s).score = (t.sInfo s).score ∧
      (i s).loseSurplus = (t.sInfo s).loseSurplus ∧
      (i s).gangScore = (t.sInfo s).gangScore) :
    Books cfg may e c g { t with sInfo := i } := by
  refine h.ranged ?_ { h.keeps with gangs := fun s g hg => ?_ }
  · simp only [ledger, Prod.mk.injEq, true_and]
    funext s
    rw [(hi s).1, (hi s).2.1]
  · rw [(hi s).2.2] at hg
    exact h.keeps.gangs s g hg

theorem Books.settleGenDatas (h : Books cfg may e c 0 t) :
    Books cfg may e c 0 t.settleGenDatas := by
  refine h.of_sInfo fun s => ?_
  split <;> exact ⟨rfl, rfl, rfl⟩

theorem pays_saveRaceOverLog (h : Books cfg may e c 0 t) {k : Table → M α}
    (hk : ∀ {may e c u}, may ∨ u.isBreakRace → Books cfg may e c 0 u → Pays cfg may e c (k u)) :
    Pays cfg may e c (t.saveRaceOverLog k) := by
  unfold Table.saveRaceOverLog
  split
  · next hb => exact hk (.inr hb) h
  · exact pays_ask h (.inr rfl) fun a _ e c u hu => hk (.inl rfl) hu

theorem pays_settle : Goes cfg 0 (settle F) := by
  intro may e c t h
  have hfinish : Goes cfg 0 fun u : Table => u.settleBankrupt.saveRaceOverLog fun v =>
      .done (v.sendSettlement fun s => (u.settleBankrupt.sInfo s).score).nextGame () := by
    intro may e c u hu
    refine pays_saveRaceOverLog (hu.same (u := u.settleBankrupt) rfl rfl)
      fun {may e c v} hmay hv => ?_
    exact Books.nextGame hmay (hv.same rfl rfl)
  unfold settle statusSettlement
  split
  · exact h.same rfl rfl
  · have hgen : Books cfg may e c 0 (t.enter .settlement).settleGenDatas :=
      Books.settleGenDatas (h.same rfl rfl)
    dsimp only
    split
    · exact hfinish hgen
    · exact pays_settleChaJiao hfinish hgen

/-! ## Turns -/

theorem Books.setSeat (h : Books cfg may e c g t) (s : Nat) {f : SeatPai → SeatPai}
    (hf : ∀ d, (f d).piaoNum = d.piaoNum) : Books cfg may e c g (t.setSeat s f) :=
  h.ranged rfl (h.keeps.setSeat s hf)

theorem Books.setDone (h : Books cfg may e c g t) (s : Nat) (b : Bool) :
    Books cfg may e c g (t.setDone s b) :=
  h.same rfl rfl

theorem Books.gain (h : Books cfg may e c g t) (s pai : Nat) :
    Books cfg may e c g (t.gain s pai) :=
  h.setSeat s (f := fun d => { d with pai := d.pai.add pai }) fun _ => rfl

theorem Books.addAct (h : Books cfg may e c g t) (act : Act) (ha : act.p ∈ cfg.seatList) :
    Books cfg may e c g (t.addAct act) :=
  h.ranged rfl (h.keeps.addAct ha)

theorem Books.setPermit (h : Books cfg may e c g t) (s : Nat) {p : Permit}
    (hp : ∀ hu ∈ p.hu, hu.In cfg) : Books cfg may e c g (t.setPermit s p) :=
  h.ranged rfl (h.keeps.setPermit s hp)

theorem Books.popPai (h : Books cfg may e c g t) : Books cfg may e c g t.popPai.2 := by
  unfold Table.popPai
  split
  · exact h
  · split
    · exact h
    · exact h.same rfl rfl

theorem Books.draw (h : Books cfg may e c g t) : Books cfg may e c g t.draw.2 := by
  have hpop := Books.popPai (h.same rfl rfl :
    Books cfg may e c g { t with pIgnoreHu := Function.update t.pIgnoreHu t.curP none })
  exact (hpop.setSeat t.curP (f := fun d => { d with moPai :=
    { t with pIgnoreHu := Function.update t.pIgnoreHu t.curP none }.popPai.1 })
    fun _ => rfl).same rfl rfl

theorem draw_curP (t : Table) : t.draw.2.curP = t.curP := by
  unfold draw popPai
  dsimp only
  split
  · rfl
  · split <;> rfl

theorem Books.drawn (h : Books cfg may e c g t) (hp : t.curP ∈ cfg.seatList) (pai : Nat) :
    Books cfg may e c g (t.drawn pai) := by
  have hcount : Books cfg may e c g { t.gain t.curP pai with
      pMopaiCount := Function.update t.pMopaiCount t.curP (t.pMopaiCount t.curP + 1) } :=
    (h.gain t.curP pai).same rfl rfl
  have hact := hcount.addAct { type := .moPai, p := t.curP, pai := pai } hp
  exact (hact.setDone t.curP true).setPermit (p := { cp := true, hu := Table.hupai _ t.curP })
    t.curP fun hu hhu => hact.keeps.hupai hhu

theorem pays_statusMoPai (h : Books cfg may e c 0 t) (hp : t.curP ∈ cfg.seatList) :
    Pays cfg may e c (statusMoPai F t) := by
  have hmo : Books cfg may e c 0 (t.enter .moPai) := h.same rfl rfl
  unfold statusMoPai
  dsimp only
  split
  · exact pays_settle hmo
  · generalize decide ((_ : Nat) ≤ _) = isOver
    have hcheck : Books cfg may e c 0 ((t.enter .moPai).noteCheck isOver) := hmo.same rfl rfl
    split
    · exact pays_settle hcheck
    · have hdraw := hcheck.draw
      have hcur := draw_curP ((t.enter .moPai).noteCheck isOver)
      split
      · next u hu =>
        rw [hu] at hdraw
        exact pays_settle hdraw
      · next pai u hu =>
        rw [hu] at hdraw hcur
        exact hdraw.drawn (hcur ▸ hp) pai

theorem pays_dealGuo : Goes cfg 0 (dealGuo F) := by
  intro may e c t h
  unfold dealGuo
  split
  · exact h
  · next act hact =>
    have hpermit : Books cfg may e c 0 (t.setPermit act.p {}) := h.setPermit _ (by simp)
    dsimp only
    split
    · exact hpermit.same rfl rfl
    · next s hs =>
      refine pays_statusMoPai (hpermit.same rfl rfl) ?_
      exact h.keeps.config ▸ mem_seatsAfter.mp (List.mem_of_find?_eq_some hs)

/-! ## Discards and melds -/

theorem cpPermit_hu {t : Table} {s pai : Nat} {p : Permit} {hu : HuInfo}
    (h : t.cpPermit s pai = some p) (hhu : p.hu = some hu) : t.hupai s = some hu := by
  unfold cpPermit at h
  split at h
  · cases h
  · next q hq =>
    have hgive : q.hu = t.hupai s := by
      unfold getPgh at hq
      dsimp only at hq
      split at hq
      · obtain rfl := Option.some.inj hq
        rfl
      · cases hq
    simp only [Option.ite_none_right_eq_some, Option.some.injEq] at h
    obtain ⟨-, rfl⟩ := h
    rw [apply_ite Permit.hu, Option.ite_none_left_eq_some] at hhu
    exact hgive ▸ hhu.2

theorem Books.offer (h : Books cfg may e c g t) (seat pai : Nat) :
    Books cfg may e c g (t.offer (t.claims seat pai)) := by
  refine h.ranged rfl { h.keeps with permit := fun s p hp hu hhu => ?_ }
  rcases Option.or_eq_some_iff.mp hp with hp | ⟨-, hp⟩
  · obtain ⟨l₁, l₂, heq, -⟩ := List.lookup_eq_some_iff.mp hp
    have hmem : (s, p) ∈ t.claims seat pai := heq ▸ by simp
    obtain ⟨x, -, hx⟩ := List.mem_filterMap.mp hmem
    split at hx
    · cases hx
    · obtain ⟨q, hq, heq⟩ := Option.map_eq_some_iff.mp hx
      obtain ⟨rfl, rfl⟩ := Prod.mk.inj heq
      exact h.keeps.hupai (cpPermit_hu hq hhu)
  · exact h.keeps.permit s p hp hu hhu

theorem pays_dealChuPai {seat pai : Nat} (hseat : seat ∈ cfg.seatList) :
    Goes cfg 0 fun t => dealChuPai F t seat pai := by
  intro may e c t h
  have hoffer : Books cfg may e c 0 ((t.offer (t.claims seat pai)).setZhuanYu seat) := by
    refine (h.offer seat pai).ranged rfl
      { (h.offer seat pai).keeps with zhuanYu := fun s hs => ?_ }
    unfold setZhuanYu at hs
    dsimp only at hs
    split at hs
    · obtain rfl := Option.some.inj hs
      exact hseat
    · cases hs
  unfold dealChuPai
  dsimp only
  split
  · exact pays_dealGuo hoffer
  · exact hoffer

theorem pays_movePaiForPg {s pai : Nat} {type : PgType} {k : Table → M α}
    (hk : Goes cfg 0 k) : Goes cfg 0 fun t => t.movePaiForPg s pai type k := by
  intro may e c t h
  unfold movePaiForPg
  dsimp only
  split
  · exact h
  · exact hk (h.ranged rfl (h.keeps.of_ranges rfl (ranges_setSeat t s fun _ => rfl)))

theorem pays_dealPengPai {act : Act} (ha : act.p ∈ cfg.seatList) :
    Goes cfg 0 fun t => t.dealPengPai act := by
  refine pays_movePaiForPg fun {may e c t} h => ?_
  have hact : Books cfg may e c 0 ((t.setPermit act.p {}).addAct act) :=
    (h.setPermit _ (by simp)).addAct act ha
  refine Books.setPermit ?_ _ (by simp)
  exact hact.ranged rfl { hact.keeps with chupai := by simp [Table.enter, setDone] }

theorem pays_gangDone {act : Act} (ha : act.p ∈ cfg.seatList) {type : PgType} :
    Goes cfg 0 fun t => gangDone F t act type := by
  refine pays_movePaiForPg fun {may e c t} h => ?_
  have hact : Books cfg may e c 0 (t.addAct act) := h.addAct act ha
  have hclear : Books cfg may e c 0 { t.addAct act with pPermit := fun _ => none } :=
    hact.ranged rfl hact.keeps.clearPermits
  exact pays_statusMoPai (hclear.same rfl rfl) ha

theorem active_in (h : Ranged cfg t) : ∀ s ∈ t.active, s ∈ cfg.seatList :=
  fun _ hs => h.config ▸ List.mem_of_mem_filter hs

theorem pays_dealGang {race : Nat} {act : Act} (ha : act.p ∈ cfg.seatList) {type : PgType} :
    Goes cfg 0 fun t => dealGang F t race act type := by
  intro may e c t h
  unfold dealGang
  dsimp only
  split
  · split
    · exact h
    · next p _ hchu =>
      have hp := h.keeps.chupai _ hchu
      exact pays_recordGangScore ha (by simpa using hp) (pays_gangDone ha) h
  · exact pays_recordGangScore ha
      (fun s hs => active_in h.keeps s (List.mem_of_mem_filter hs)) (pays_gangDone ha) h

theorem pays_dealWGangFinish {race : Nat} {act : Act} (ha : act.p ∈ cfg.seatList) :
    Goes cfg 0 fun t => dealWGangFinish F t race act := by
  intro may e c t h
  have hmo : Goes cfg 0 fun t => statusMoPai F { t with curP := act.p } :=
    fun hu => pays_statusMoPai (hu.same rfl rfl) ha
  unfold dealWGangFinish
  dsimp only
  split
  · exact hmo h
  · exact pays_recordGangScore ha
      (fun s hs => active_in h.keeps s (List.mem_of_mem_filter hs)) hmo h

theorem Books.offerRob (h : Books cfg may e c g t) : Books cfg may e c g t.offerRob := by
  refine h.ranged rfl { h.keeps with permit := fun s p hp hu hhu => ?_ }
  rcases Option.or_eq_some_iff.mp hp with hp | ⟨-, hp⟩
  · obtain ⟨i, hi, rfl⟩ := Option.map_eq_some_iff.mp hp
    obtain rfl := Option.some.inj hhu
    obtain ⟨l₁, l₂, heq, -⟩ := List.lookup_eq_some_iff.mp hi
    have hmem : (s, i) ∈ t.robbers := heq ▸ by simp
    obtain ⟨x, -, hx⟩ := List.mem_filterMap.mp hmem
    split at hx
    · cases hx
    · obtain ⟨q, hq, heq⟩ := Option.map_eq_some_iff.mp hx
      obtain ⟨rfl, rfl⟩ := Prod.mk.inj heq
      exact h.keeps.hupai hq
  · exact h.keeps.permit s p hp hu hhu

theorem pays_dealWGang {race : Nat} {act : Act} (ha : act.p ∈ cfg.seatList) :
    Goes cfg 0 fun t => dealWGang F t race act := by
  refine pays_movePaiForPg fun {may e c t} h => ?_
  have hact : Books cfg may e c 0 (t.addAct act) := h.addAct act ha
  have hrob : Books cfg may e c 0 (t.wGangMoved act).offerRob :=
    Books.offerRob (hact.ranged rfl hact.keeps.clearPermits)
  dsimp only
  split
  · exact pays_dealWGangFinish ha hrob
  · refine hrob.ranged rfl { hrob.keeps with wanGang := fun a hmem => ?_ }
    obtain rfl := Option.some.inj hmem
    exact ha

/-! ## Wins -/

theorem Books.win (h : Books cfg may e c g t) (a : HuAct) : Books cfg may e c g (t.win a) := by
  have hwin : Books cfg may e c g { t with
      huNum := t.huNum + 1
      huOrder := Function.update t.huOrder a.p (some (t.huNum + 1)) } := h.same rfl rfl
  unfold Table.win
  dsimp only
  split
  · exact hwin.gain a.p _
  · exact hwin.gain a.p _
  · exact hwin

theorem huOthers_in (h : Ranged cfg t) {a : HuAct} (ha : a.In cfg) :
    ∀ s ∈ t.huOthers a, s ∈ cfg.seatList := by
  intro s hs
  unfold huOthers at hs
  split at hs
  · exact active_in h s (List.mem_of_mem_filter hs)
  · exact active_in h s (List.mem_of_mem_filter hs)
  · exact ha.2 s (Option.mem_toList.mp hs)
  · exact ha.2 s (Option.mem_toList.mp hs)

theorem Books.setHu (h : Books cfg may e c g t) (a : HuAct) : Books cfg may e c g (t.setHu a) := by
  refine h.of_sInfo fun s => ?_
  by_cases hs : s = a.p
  · subst hs
    simp
  · simp [hs]

theorem pays_dealHuLoop {race : Nat} {actions : Nat → Option HuAct}
    (hactions : ∀ s, ∀ a ∈ actions s, a.In cfg) {k : Table → M Unit} (hk : Goes cfg 0 k)
    (n : Nat) {may : Prop} {e : Nat} {c : Int × Int} (s : Option Nat) {t : Table}
    (h : Books cfg may e c 0 t) : Pays cfg may e c (dealHuLoop F race actions k n s t) := by
  induction n generalizing may e c s t with
  | zero => exact hk h
  | succ n ih =>
      cases s with
      | none => exact h
      | some s =>
          unfold dealHuLoop
          split
          · exact ih _ h
          · next a ha =>
            have hin := hactions s a ha
            refine pays_dealChangeScore hin.1 (Nat.cast_nonneg _)
              (huOthers_in (h.win a).keeps hin) (fun _ _ _ may e c u hu => ?_) (h.win a)
            exact ih _ ((hu.setHu a).addAct _ hin.1)

theorem pays_dealHu {race : Nat} {actions : Nat → Option HuAct}
    (hactions : ∀ s, ∀ a ∈ actions s, a.In cfg) :
    Goes cfg 0 fun t => dealHu F t race actions := by
  intro may e c t h
  unfold dealHu
  dsimp only
  split
  · exact h
  · refine pays_dealHuLoop hactions (fun {may e c u} hu => ?_) _ _ h
    generalize decide ((_ : Nat) ≤ _) = isOver
    have hbroke : Books cfg may e c 0 (u.dealGameBankrupt.noteCheck isOver) := hu.same rfl rfl
    split
    · exact pays_settle hbroke
    · exact pays_dealGuo hbroke

theorem Books.unGang (h : Books cfg may e c g t) (act : Act) :
    Books cfg may e c g (t.unGang act) := by
  have hacts : Books cfg may e c g { t with actionList := t.actionList.map fun a =>
      if a = act then { a with type := .pg .peng } else a } := by
    refine h.ranged rfl { h.keeps with acts := fun a hmem => ?_ }
    obtain ⟨b, hb, rfl⟩ := List.mem_map.mp hmem
    have := h.keeps.acts b hb
    split <;> exact this
  exact hacts.setSeat act.p (f := fun d => { d with
    pgType := Function.update d.pgType act.pai (some .peng)
    pgPai := Function.update d.pgPai act.pai 3 }) fun _ => rfl

theorem Books.noteRob (h : Books cfg may e c g t) (p : Nat) {hu : Option HuAct}
    (hhu : ∀ a ∈ hu, a.In cfg) : Books cfg may e c g (t.noteRob p hu) := by
  refine h.ranged rfl { h.keeps with robHu := fun s a ha => ?_ }
  unfold Table.noteRob at ha
  dsimp only at ha
  split at ha
  · by_cases hs : s = p
    · subst hs
      rw [Function.update_self] at ha
      exact hhu a ha
    · rw [Function.update_of_ne hs] at ha
      exact h.keeps.robHu s a ha
  · exact h.keeps.robHu s a ha

theorem pays_qiangGangHuManager {race p : Nat} {hu : Option HuAct}
    (hhu : ∀ a ∈ hu, a.In cfg) :
    Goes cfg 0 fun t => t.qiangGangHuManager F race p hu := by
  intro may e c t h
  have hnote := h.noteRob p hhu
  unfold qiangGangHuManager
  dsimp only
  split
  · split
    · exact hnote
    · next act hact =>
      refine Prog.Owes.bind ?_ fun _ u may e c (hu : Books cfg may e c 0 u) =>
        hu.ranged rfl { hu.keeps with wanGang := by simp, robHu := by simp }
      split
      · exact pays_dealHu hnote.keeps.robHu (hnote.unGang act)
      · exact pays_dealWGangFinish (hnote.keeps.wanGang act hact) hnote
  · exact hnote

def Claim.In (cfg : Config) : Claim → Prop
  | .hu a => a.In cfg
  | .pg act => act.p ∈ cfg.seatList
  | .guo _ => True

theorem Books.noteClaim (h : Books cfg may e c g t) {cl : Claim} (hcl : Claim.In cfg cl) :
    Books cfg may e c g (t.noteClaim cl) := by
  cases cl with
  | hu a =>
      refine h.ranged rfl { h.keeps with waitHu := fun s b hb => ?_ }
      by_cases hs : s = a.p
      · subst hs
        obtain rfl : a = b := by simpa [Table.noteClaim] using hb
        exact hcl
      · exact h.keeps.waitHu s b (by simpa [Table.noteClaim, hs] using hb)
  | pg act =>
      refine h.ranged rfl { h.keeps with waitPg := fun a ha => ?_ }
      obtain rfl := Option.some.inj ha
      exact hcl
  | guo p => exact h.same rfl rfl

theorem pays_pengGangHuManager {race : Nat} {cl : Claim} (hcl : Claim.In cfg cl) :
    Goes cfg 0 fun t => t.pengGangHuManager F race cl := by
  intro may e c t h
  have hnote := h.noteClaim hcl
  unfold pengGangHuManager
  dsimp only
  split
  · refine Prog.Owes.bind ?_ fun _ u may e c (hu : Books cfg may e c 0 u) =>
      hu.ranged rfl { hu.keeps with waitHu := by simp, waitPg := by simp }
    split
    · exact pays_dealHu hnote.keeps.waitHu hnote
    · split
      · next act hact =>
        have ha := hnote.keeps.waitPg act hact
        split
        · exact pays_dealPengPai ha hnote
        · split
          · exact pays_dealGang ha hnote
          · exact hnote
      · exact pays_dealGuo hnote
  · exact hnote

/-! ## Commands -/

theorem Books.discard (h : Books cfg may e c g t) {seat : Nat} (hseat : seat ∈ cfg.seatList)
    (pai : Nat) (n : Int) : Books cfg may e c g (t.discard seat pai n) := by
  have hpai := h.setSeat seat (f := fun d =>
    { d with pai := Function.update d.pai pai (some (n - 1)) }) fun _ => rfl
  refine Books.addAct ?_ _ hseat
  refine hpai.ranged rfl { hpai.keeps with chupai := fun x hx => ?_ }
  obtain rfl := Option.some.inj hx
  exact hseat

theorem pays_chuPai {seat : Nat} (hseat : seat ∈ cfg.seatList) {pai : Nat} :
    Goes cfg 0 fun t => t.chuPai F seat pai := by
  intro may e c t h
  have hdone := h.setDone seat false
  unfold chuPai
  dsimp only
  split
  · split
    · refine hdone.ranged rfl { hdone.keeps with chupai := fun x hx => ?_ }
      obtain rfl := Option.some.inj hx
      exact hseat
    · refine Prog.Owes.bind ?_ fun _ u may e c (hu : Books cfg may e c 0 u) => hu
      exact pays_dealChuPai hseat ((hdone.discard hseat pai _).same rfl rfl)
  · exact h

theorem pays_guoPai {seat : Nat} : Goes cfg 0 fun t => t.guoPai F seat := by
  intro may e c t h
  have hdone := h.setDone seat false
  unfold guoPai
  dsimp only
  split
  · split
    · exact hdone
    · refine Prog.Owes.bind ?_ fun _ u may e c (hu : Books cfg may e c 0 u) => hu
      split
      · exact pays_qiangGangHuManager (by simp) (hdone.same rfl rfl)
      · refine pays_pengGangHuManager ?_ (hdone.same rfl rfl)
        exact trivial
  · exact h

theorem pays_pengPai {seat : Nat} (hseat : seat ∈ cfg.seatList) {pai : Nat} :
    Goes cfg 0 fun t => t.pengPai F seat pai := by
  intro may e c t h
  unfold pengPai
  dsimp only
  split
  · refine Prog.Owes.bind ?_ fun _ u may e c (hu : Books cfg may e c 0 u) => hu
    refine pays_pengGangHuManager ?_ ((h.setDone seat false).same rfl rfl)
    exact hseat
  · exact h

theorem pays_gangPai {seat : Nat} (hseat : seat ∈ cfg.seatList) {type : GangArg}
    {pai : Nat} : Goes cfg 0 fun t => t.gangPai F seat type pai := by
  intro may e c t h
  have hdone : Books cfg may e c 0 { t.setDone seat false with
      pIgnoreHu := Function.update t.pIgnoreHu seat none } := h.same rfl rfl
  unfold gangPai
  dsimp only
  split
  · refine Prog.Owes.bind ?_ fun _ u may e c (hu : Books cfg may e c 0 u) => hu.same rfl rfl
    cases type with
    | ag => exact pays_dealGang hseat hdone
    | zg =>
        refine pays_pengGangHuManager ?_ hdone
        exact hseat
    | wg => exact pays_dealWGang hseat hdone
    | jwg => exact pays_dealWGang hseat hdone
  · exact h

theorem pays_zhuanYu {race seat : Nat} (hseat : seat ∈ cfg.seatList) {a : HuAct}
    {acts : List Act} : Goes cfg 0 fun t => t.zhuanYu F race seat a acts := by
  intro may e c t h
  unfold zhuanYu
  dsimp only
  split
  · exact h
  · next g hg =>
    split
    · exact h
    · next gang hgang =>
      have hmem := List.mem_of_getLast? hgang
      have hin := h.keeps.gangs g gang hmem
      split
      · refine pays_dealChangeScore hseat ?_ (by simpa using h.keeps.zhuanYu g hg) ?_ ?_
        · exact NumFormat.rnd_nonneg (div_nonneg (by exact_mod_cast hin.score)
            (Nat.cast_nonneg _))
        · exact fun _ _ _ _ _ _ _ hu => hu
        · refine h.ranged ?_ { h.keeps with gangs := fun s x hx => ?_ }
          · simp only [ledger, Prod.mk.injEq, true_and]
            funext s
            by_cases hs : s = g
            · subst hs
              simp
            · simp [hs]
          · by_cases hs : s = g
            · subst hs
              simp only [Function.update_self] at hx
              rcases List.mem_append.mp hx with hx | hx
              · exact h.keeps.gangs s x (List.mem_of_mem_dropLast hx)
              · obtain rfl := List.mem_singleton.mp hx
                exact ⟨hin.others, by simpa using hseat, hin.score⟩
            · exact h.keeps.gangs s x (by simpa [hs] using hx)
      · exact h

theorem pays_huPai {seat : Nat} (hseat : seat ∈ cfg.seatList) :
    Goes cfg 0 fun t => t.huPai F seat := by
  intro may e c t h
  have hdone := h.setDone seat false
  unfold huPai
  dsimp only
  split
  · split
    · exact hdone
    · next hu hhu =>
      obtain ⟨p, hp, hphu⟩ := Option.bind_eq_some_iff.mp hhu
      have hin : HuAct.In cfg ⟨seat, huTypeOf hu, hu⟩ :=
        ⟨hseat, hdone.keeps.permit seat p hp hu hphu⟩
      have hself : ∀ s, ∀ a ∈ Function.update (fun _ => none) seat
          (some (⟨seat, huTypeOf hu, hu⟩ : HuAct)) s, a.In cfg := by
        intro s a ha
        by_cases hs : s = seat
        · subst hs
          obtain rfl : _ = a := by simpa using ha
          exact hin
        · simp [hs] at ha
      refine Prog.Owes.bind ?_ fun _ u may e c (hu : Books cfg may e c 0 u) => pays_zhuanYu hseat hu
      cases hty : huTypeOf hu with
      | qghu =>
          rw [hty] at hin
          exact pays_qiangGangHuManager (by simpa using hin) (hdone.same rfl rfl)
      | pao =>
          rw [hty] at hin
          refine pays_pengGangHuManager ?_ hdone
          exact hin
      | zimo =>
          rw [hty] at hself
          exact pays_dealHu hself hdone
      | tianHu =>
          rw [hty] at hself
          exact pays_dealHu hself hdone
  · exact h

theorem pays_daPiao {seat : Nat} {n : Int} : Goes cfg 0 fun t => t.daPiao seat n := by
  intro may e c t h
  have hdone := h.setDone seat false
  unfold daPiao
  dsimp only
  split
  · split
    · exact hdone
    · next hn =>
      have hle : n ≤ 5 := by
        have hmem : n ∈ [0, 1, 3, 5] := not_not.mp (not_or.mp hn).1
        simp only [List.mem_cons, List.not_mem_nil, or_false] at hmem
        omega
      have hpiao : Books cfg may e c 0 ((t.setDone seat false).setSeat seat fun d =>
          { d with piaoNum := n }) := by
        refine hdone.ranged rfl { hdone.keeps with piao := fun s => ?_ }
        by_cases hs : s = seat
        · subst hs
          simpa [Table.setSeat] using hle
        · simpa [Table.setSeat, hs] using hdone.keeps.piao s
      split
      · exact hpiao.wait (by decide)
      · exact hpiao
  · exact h

theorem pays_dingQue {seat flower : Nat} : Goes cfg 0 fun t => t.dingQue seat flower := by
  intro may e c t h
  have hque : Books cfg may e c 0 { t.setDone seat false with
      pDingQue := Function.update t.pDingQue seat (some flower) } := h.same rfl rfl
  unfold dingQue
  dsimp only
  split
  · split
    · exact hque.wait (by decide)
    · exact hque
  · exact h

theorem ledger_ranges_pai (t : Table) (s : Nat) (f : PaiMap → PaiMap) :
    ((t.setSeat s fun d => { d with pai := f d.pai }).ledger,
      (t.setSeat s fun d => { d with pai := f d.pai }).ranges) = (t.ledger, t.ranges) :=
  Prod.ext rfl (ranges_setSeat t s fun _ => rfl)

theorem Books.fapaiNor (h : Books cfg may e c g t) : Books cfg may e c g t.fapaiNor := by
  have hframe := fapaiNor_frame (f := fun t => (t.ledger, t.ranges)) ledger_ranges_pai
    (fun _ _ _ => rfl) t
  exact h.same (congrArg Prod.fst hframe) (congrArg Prod.snd hframe)

theorem Books.huanPai (h : Books cfg may e c g t) (seat : Nat) (old : List Nat) :
    Books cfg may e c g (t.huanPai seat old) := by
  have hframe := huanPai_frame (f := fun t => (t.ledger, t.ranges)) ledger_ranges_pai
    (fun _ _ => rfl) seat old t
  exact h.same (congrArg Prod.fst hframe) (congrArg Prod.snd hframe)

theorem pays_huanSanZhang {seat : Nat} {old : List Nat} :
    Goes cfg 0 fun t => t.huanSanZhang seat old := by
  intro may e c t h
  have hswap := ((h.setDone seat false).huanPai seat old).setSeat seat
    (f := fun d => { d with isHuanPai := true }) fun _ => rfl
  unfold huanSanZhang
  dsimp only
  split
  · split
    · exact hswap.wait (by decide)
    · exact hswap
  · exact h

theorem pays_join {id : Nat} {seat : Option Nat} {score : Int} :
    Goes cfg 0 fun t => t.join id seat score := by
  intro may e c t h
  unfold join
  dsimp only
  split
  · exact h
  · split
    · exact h
    · exact h.same rfl rfl

theorem pays_playerExitGame {seat : Nat} : Goes cfg 0 fun t => t.playerExitGame seat := by
  intro may e c t h
  unfold playerExitGame
  dsimp only
  split
  · exact h
  · exact h.same rfl rfl

theorem pays_readyCmd {seat : Nat} : Goes cfg 0 fun t => t.readyCmd seat := by
  intro may e c t h
  have hready : Books cfg may e c 0 { t with
      ready := Function.update t.ready seat 1
      pReady := t.pReady + 1 } := h.same rfl rfl
  unfold readyCmd
  dsimp only
  split
  · split
    · exact Books.wait (hready.same rfl rfl) (by decide)
    · exact hready
  · exact h

theorem pays_quitRoom {seat : Nat} : Goes cfg 0 fun t => t.quitRoom seat := by
  intro may e c t h
  unfold quitRoom
  dsimp only
  split
  · exact h.same rfl rfl
  · exact h

theorem pays_finishGame {status : Status} : Goes cfg 0 fun t => t.finishGame status := by
  intro may e c t h
  refine pays_ask (h.same (u := t.enter status) rfl rfl) (.inr rfl) fun a _ e c u hu => ?_
  exact hu.same rfl rfl

theorem pays_cancelGame : Goes cfg 0 cancelGame := by
  intro may e c t h
  unfold cancelGame
  split
  · exact h
  · exact Prog.Owes.bind (pays_finishGame h) fun _ u may e c (hu : Books cfg may e c 0 u) => hu

theorem pays_breakGame : Goes cfg 0 fun t => t.breakGame F := by
  intro may e c t h
  have hbreak : Books cfg may e c 0 { t with isBreakGame := true } :=
    h.ranged rfl { h.keeps with broken := fun _ => rfl }
  have hrace : Books cfg may e c 0 { t with isBreakGame := true, isBreakRace := true } :=
    h.ranged rfl { h.keeps with broken := fun _ => rfl }
  unfold breakGame
  dsimp only
  split
  · exact h
  · split
    · refine Prog.Owes.bind (pays_finishGame hbreak) ?_
      exact fun _ u may e c (hu : Books cfg may e c 0 u) => hu
    · split
      · refine Prog.Owes.bind (pays_settle hrace) ?_
        exact fun _ u may e c (hu : Books cfg may e c 0 u) => hu
      · exact hbreak

theorem pays_overTimeCancelGame : Goes cfg 0 fun t => t.overTimeCancelGame F := by
  intro may e c t h
  unfold overTimeCancelGame
  dsimp only
  split
  · exact pays_cancelGame h
  · exact pays_breakGame h

theorem pays_forceBreakGame : Goes cfg 0 forceBreakGame := by
  intro may e c t h
  have hbreak : Books cfg may e c 0 { t with isBreakGame := true } :=
    h.ranged rfl { h.keeps with broken := fun _ => rfl }
  refine pays_saveRaceOverLog hbreak fun {may e c u} _ hu => ?_
  refine Books.wait (s := .gameover) ?_ (by decide)
  exact hu.same rfl rfl

/-! ## Timers -/

theorem Books.statusHuanPaiFinish (h : Books cfg may e c g t) :
    Books cfg may e c g t.statusHuanPaiFinish := by
  unfold Table.statusHuanPaiFinish
  split
  · exact h.wait (by decide)
  · refine Books.wait (s := .start) ?_ (by decide)
    exact h.same rfl rfl

theorem Books.statusDaPiaoFinish (h : Books cfg may e c g t) :
    Books cfg may e c g t.statusDaPiaoFinish := by
  unfold Table.statusDaPiaoFinish
  split
  · exact h.wait (by decide)
  · exact h.statusHuanPaiFinish

theorem Books.statusFapai (h : Books cfg may e c g t) :
    Books cfg may e c g t.statusFapai := by
  have hdeal := Books.fapaiNor (h.same (u := t.enter .fapai) rfl rfl)
  unfold Table.statusFapai
  dsimp only
  split
  · exact hdeal.wait (by decide)
  · exact hdeal.statusDaPiaoFinish

theorem pays_startCp : Goes cfg 0 Table.startCp := by
  intro may e c t h
  have hcur : Books cfg may e c 0 { t.enter .start with curP := t.zhuangSeat } :=
    h.same rfl rfl
  unfold Table.startCp
  dsimp only
  split
  · exact hcur
  · next hu heq =>
    refine (hcur.setDone t.zhuangSeat true).setPermit t.zhuangSeat fun info hinfo => ?_
    obtain rfl : hu = some info := hinfo
    exact hcur.keeps.hupaiInfo heq

theorem Books.statusChuPai (h : Books cfg may e c g t) :
    Books cfg may e c g t.statusChuPai := by
  refine Books.setPermit ?_ _ (by simp)
  exact h.ranged rfl { h.keeps with chupai := by simp [Table.enter, Table.setDone] }

theorem pays_changeStatus {next : Status} (hnext : next ≠ .moPai) :
    Goes cfg 0 fun t => t.changeStatus F next := by
  intro may e c t h
  cases next with
  | moPai => exact absurd rfl hnext
  | gameBegin => exact Books.wait (h.same rfl rfl) (by decide)
  | fapai => exact h.statusFapai
  | huanPaiFinish =>
      exact Books.statusHuanPaiFinish (h.same (u := t.enter .huanPaiFinish) rfl rfl)
  | daPiaoFinish =>
      exact Books.statusDaPiaoFinish (h.same (u := t.enter .daPiaoFinish) rfl rfl)
  | dingQueFinish =>
      exact Books.wait (h.same (u := t.enter .dingQueFinish) rfl rfl) (by decide)
  | cp => exact h.statusChuPai
  | start => exact pays_startCp h
  | settlement => exact pays_settle h
  | gameover => exact pays_finishGame h
  | gamecancel => exact pays_finishGame h
  | _ => exact h.same rfl rfl

theorem pays_update : Goes cfg 0 fun t => t.update F := by
  intro may e c t h
  unfold update
  dsimp only
  split
  · next next _ hnext =>
    refine Prog.Owes.bind (pays_changeStatus ?_ h) ?_
    · rintro rfl
      exact h.keeps.next hnext
    · exact fun _ u may e c (hu : Books cfg may e c 0 u) => hu
  · exact h.statusFapai
  · exact h

/-! ## Runs -/

/-- The commands that act for a seat name a seat of the table, as the agents
do. -/
def OwnSeat (cfg : Config) : Event → Prop
  | .chuPai seat _ => seat ∈ cfg.seatList
  | .pengPai seat _ => seat ∈ cfg.seatList
  | .gangPai seat _ _ => seat ∈ cfg.seatList
  | .huPai seat => seat ∈ cfg.seatList
  | _ => True

instance decidableOwnSeat (cfg : Config) : ∀ ev, Decidable (OwnSeat cfg ev) := by
  rintro (_ | _) <;> unfold OwnSeat <;> infer_instance

theorem pays_handle {ev : Event} (hev : OwnSeat cfg ev) :
    Goes cfg 0 fun t => t.handle F ev := by
  cases ev with
  | join id seat score => exact pays_join
  | playerExitGame seat => exact pays_playerExitGame
  | ready seat => exact pays_readyCmd
  | daPiao seat piaoNum => exact pays_daPiao
  | dingQue seat flower => exact pays_dingQue
  | huanSanZhang seat old => exact pays_huanSanZhang
  | chuPai seat pai => exact pays_chuPai hev
  | guoPai seat => exact pays_guoPai
  | pengPai seat pai => exact pays_pengPai hev
  | gangPai seat type pai => exact pays_gangPai hev
  | huPai seat => exact pays_huPai hev
  | quitRoom seat => exact pays_quitRoom
  | cancelGame => exact pays_cancelGame
  | breakGame => exact pays_breakGame
  | overTimeCancelGame => exact pays_overTimeCancelGame
  | forceBreakGame => exact pays_forceBreakGame
  | update => exact pays_update

theorem pays_step {ev : Event × (Nat → Nat)} (hev : OwnSeat cfg ev.1) :
    Goes cfg 0 (step F ev) := by
  intro may e c t h
  unfold step
  split
  · exact h
  · exact pays_handle hev (h.same rfl rfl)

theorem ranged_newTable (cfg : Config) (ρ : Nat → Nat) : Ranged cfg (newTable cfg ρ) := by
  refine ⟨rfl, ?_, ?_, ?_, ?_, ?_, ?_, ?_, ?_, ?_, ?_, ?_, ?_⟩ <;> simp [newTable, newGame]

end Pay

def scoreSum (t : Table) : Int := (t.cfg.seatList.map fun s => (t.sInfo s).score).sum

def loseSurplusSum (t : Table) : Int :=
  (t.cfg.seatList.map fun s => (t.sInfo s).loseSurplus).sum

theorem books_eq (t : Table) : t.books = (t.scoreSum, t.loseSurplusSum) := by
  have hfst := List.sum_hom (t.cfg.seatList.map fun s =>
    ((t.sInfo s).score, (t.sInfo s).loseSurplus)) (AddMonoidHom.fst Int Int)
  have hsnd := List.sum_hom (t.cfg.seatList.map fun s =>
    ((t.sInfo s).score, (t.sInfo s).loseSurplus)) (AddMonoidHom.snd Int Int)
  rw [List.map_map] at hfst hsnd
  exact Prod.ext hfst.symm hsnd.symm

/-- The seats of the commands are seats of the table and agents answer as they are
asked; the log of a hand is answered while no other command is in progress. -/
def LogAlone (cfg : Config) (w : MjWorld) (i : Input (Event × (Nat → Nat)) Answer) : Prop :=
  w.Admits Valid (fun _ e => OwnSeat cfg e.1) (fun _ => True) i ∧ w.ClosesAlone (· = .raceLog) i

theorem Reachable.balanced {F : NumFormat} {cfg : Config} {ρ : Nat → Nat} {w : MjWorld}
    (h : Reachable F cfg ρ (LogAlone cfg) w) : w.Balanced (scoreBooks cfg) := by
  refine World.balanced_of_reach (ranged_newTable cfg ρ) ?_ (fun t ev ht hev => ?_) h
  · simp [books, newTable, newGame]
  · have hopen := Bookkeeping.Account.resume (B := scoreBooks cfg) ht False 0
    rw [add_zero] at hopen
    exact pays_step hev hopen

/-- While no agent is asked for money, the scores and the unpaid amounts of the
hand make zero. -/
theorem Reachable.zero_sum {F : NumFormat} {cfg : Config} {ρ : Nat → Nat} {w : MjWorld}
    (h : Reachable F cfg ρ (LogAlone cfg) w)
    (hidle : ∀ x ∈ w.waiting, ∀ s n, x.1 ≠ .modifyScore s n) :
    w.state.scoreSum = 0 ∧ w.state.loseSurplusSum = 0 := by
  have hzero := h.balanced.books_eq_zero (B := scoreBooks cfg)
    fun x hx ⟨s, n, hq⟩ => hidle x hx s n hq
  have hbooks : w.state.books = 0 := hzero
  rw [books_eq] at hbooks
  exact Prod.mk.inj hbooks

instance decidableLogAlone (cfg : Config) (w : MjWorld)
    (i : Input (Event × (Nat → Nat)) Answer) : Decidable (LogAlone cfg w i) :=
  inferInstanceAs (Decidable (w.Admits Valid (fun _ e => OwnSeat cfg e.1) (fun _ => True) i ∧
    w.ClosesAlone (· = .raceLog) i))

def payConfig : Config := { gameType := .er13, algo := plainAlgo }

def payTiles : List Nat :=
  dealOrder
    [[11, 11, 11, 11, 12, 13, 14, 21, 22, 23, 24, 25, 26],
     [15, 16, 17, 18, 19, 27, 28, 29, 21, 22, 23, 24, 25]] []

def payRun : List (Input (Event × (Nat → Nat)) Answer) :=
  erOpening (fun _ => 100) ++ [cmd (.gangPai 1 .ag 11), ans (-2), ans 2]

theorem payRun_allowed :
    Allowed (World.step (Table.step .exact)) (LogAlone payConfig)
        ⟨newTable payConfig (rig .er13 payTiles), []⟩ payRun ∧
      ((after payConfig (rig .er13 payTiles) payRun).waiting = [] ∧
        ((after payConfig (rig .er13 payTiles) payRun).state.sInfo 1).score = 2) := by
  rw [after, newTable_rig _ .er13 payTiles rfl (by decide +kernel)]
  decide +kernel

theorem zero_sum_kong :
    ((after payConfig (rig .er13 payTiles) payRun).state.sInfo 1).score = 2 ∧
      (after payConfig (rig .er13 payTiles) payRun).state.scoreSum = 0 ∧
      (after payConfig (rig .er13 payTiles) payRun).state.loseSurplusSum = 0 := by
  obtain ⟨hrun, hwait, hscore⟩ := payRun_allowed
  refine ⟨hscore, Reachable.zero_sum (reach_run hrun) fun x hx => ?_⟩
  rw [hwait] at hx
  cases hx

/-! ## Two kongs at once -/

def twoKongsTiles : List Nat :=
  dealOrder
    [[29, 29, 28, 28, 28, 28, 12, 12, 13, 13, 14, 15, 11],
     [11, 12, 13, 14, 15, 16, 17, 21, 22, 23, 24, 25, 26],
     [29, 21, 21, 22, 23, 24, 25, 26, 27, 27, 13, 15, 18],
     [11, 11, 19, 19, 19, 19, 16, 16, 17, 17, 18, 22, 25]]
    [15, 18]

def twoKongsConfig : Config :=
  { algo := plainAlgo, breakExit := true, raceCount := 2 }

/-- While the kong of the first seat waits for the fourth, the fourth seat makes
its own kong, which leaves the others without money and ends the hand. -/
def twoKongsRun : List (Input (Event × (Nat → Nat)) Answer) :=
  opening (fun s => if s = 1 then 3 else if s = 3 then 4 else 9) (fun _ => 3) ++
  [cmd (.chuPai 1 11), cmd (.huPai 2), ans (-1), ans 1, cmd (.chuPai 3 29),
    cmd (.pengPai 1 29), cmd (.gangPai 1 .ag 28), ans (-2), cmd (.gangPai 4 .ag 19),
    .answer 1 { value := -2 }, .answer 1 { value := -2 }, .answer 1 { value := 4 },
    .answer 1 {}, ans (-2), ans 4]

theorem twoKongsRun_allowed :
    Allowed (World.step (Table.step .exact))
        (fun w i => w.Admits Valid (fun _ e => OwnSeat twoKongsConfig e.1) (fun _ => True) i)
        ⟨newTable twoKongsConfig (rig .xzdd twoKongsTiles), []⟩ twoKongsRun ∧
      ((after twoKongsConfig (rig .xzdd twoKongsTiles) twoKongsRun).waiting = [] ∧
        (after twoKongsConfig (rig .xzdd twoKongsTiles) twoKongsRun).state.curRace = 2 ∧
        (after twoKongsConfig (rig .xzdd twoKongsTiles) twoKongsRun).state.scoreSum =
          2) := by
  rw [after, newTable_rig _ .xzdd twoKongsTiles rfl (by decide +kernel)]
  decide +kernel

/-- The rest of the first kong is booked in the next hand, whose scores then do
not make zero. -/
theorem two_kongs_unbalanced :
    Reachable .exact twoKongsConfig (rig .xzdd twoKongsTiles)
        (fun w i => w.Admits Valid (fun _ e => OwnSeat twoKongsConfig e.1) (fun _ => True) i)
        (after twoKongsConfig (rig .xzdd twoKongsTiles) twoKongsRun) ∧
      (after twoKongsConfig (rig .xzdd twoKongsTiles) twoKongsRun).waiting = [] ∧
      ¬ (after twoKongsConfig (rig .xzdd twoKongsTiles) twoKongsRun).state.scoreSum =
        0 := by
  obtain ⟨hrun, hwait, -, hsum⟩ := twoKongsRun_allowed
  refine ⟨reach_run hrun, hwait, ?_⟩
  rw [hsum]
  decide

end Table

end JyQipai.Mj
